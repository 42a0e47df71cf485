import PiVpn.Lib.Settle
import PiVpn.Maintenance.Updates
import PiVpn.Python.Ipaddress

/-! The DNS records the device keeps for itself: one update of one record, over a zone that
holds any records, and what repeating it makes of the zone. -/

namespace Ddns
open Text Effect Ipaddress
open Maintenance (orDefault)

/-! ## The zone -/

/-- The identifier the service gives a record. -/
@[ext] structure RecordId where
  text : Text
  hex : text ≠ [] ∧ text.all isHexDigit = true
  deriving DecidableEq

structure DnsRecord where
  id : RecordId
  type : Text
  name : Text
  content : Text
  ttl : Nat
  proxied : Bool
  deriving DecidableEq

def DnsRecord.Matches (type name : Text) (r : DnsRecord) : Prop := r.type = type ∧ r.name = name

instance (type name : Text) (r : DnsRecord) : Decidable (r.Matches type name) :=
  inferInstanceAs (Decidable (_ ∧ _))

/-- No two records have one identifier. -/
structure Zone where
  records : List DnsRecord
  distinct : (records.map DnsRecord.id).Nodup
  deriving DecidableEq

namespace Zone

def found (zone : Zone) (type name : Text) : List DnsRecord := zone.records.filter fun r => r.Matches type name

def others (zone : Zone) (type name : Text) : List DnsRecord := zone.records.filter fun r => ¬ r.Matches type name

def create (zone : Zone) (r : DnsRecord) (h : r.id ∉ zone.records.map DnsRecord.id) : Zone where
  records := zone.records ++ [r]
  distinct := by
    rw [List.map_append, List.nodup_append']
    exact ⟨zone.distinct, List.nodup_singleton _, by simpa using h⟩

def delete (zone : Zone) (id : Text) : Zone where
  records := zone.records.filter fun r => r.id.text ≠ id
  distinct := zone.distinct.sublist (List.filter_sublist.map _)

def patch (zone : Zone) (id content : Text) : Zone where
  records := zone.records.map fun r => if r.id.text = id then { r with content := content } else r
  distinct := by
    have hid : (DnsRecord.id ∘ fun r => if r.id.text = id then { r with content := content } else r) =
        DnsRecord.id := by
      funext r
      rw [Function.comp_apply]
      split <;> rfl
    rw [List.map_map, hid]
    exact zone.distinct

end Zone

/-! ## The update of a record -/

def isAddressChar (c : Char) : Bool := isHexDigit c || c = '.' || c = ':'

/-- The address to be published, possibly empty. -/
structure Address where
  text : Text
  plain : text.all isAddressChar = true
  deriving DecidableEq

/-- The calls of the service, and the log. The texts go into the query and the body as they are. -/
inductive Op where
  | lookup (type name : Text)
  | create (type name content : Text)
  | delete (id : Text)
  | patch (id content : Text)
  | log (text : String)
  deriving DecidableEq

/-- A lookup that succeeds lists records. A write answers nothing when the response reports
success, and the response otherwise. -/
abbrev Op.Answer : Op → Type
  | .lookup _ _ => Option (List DnsRecord)
  | .create _ _ _ => Option Text
  | .delete _ => Option Text
  | .patch _ _ => Option Text
  | .log _ => Unit

abbrev Sys : Signature := ⟨Op, Op.Answer⟩

abbrev Cmd (α : Type) := Prog Sys Empty α

def ask (o : Op) : Cmd o.Answer := Prog.perform (S := Sys) o

def errWord : Text := ['E', 'R', 'R']
def newWord : Text := ['N', 'E', 'W']

/-- What the script prints of the lookup. -/
def foundText : Option (List DnsRecord) → Text
  | none => errWord
  | some [] => newWord
  | some (r :: _) => r.id.text ++ ' ' :: r.content

def isBlank (c : Char) : Bool := c = ' ' || c = '\t'

/-- A substitution drops zero bytes, and `read` goes as far as the end of the line. -/
def firstLine (printed : Text) : Text := (printed.filter (· ≠ '\x00')).takeWhile (· ≠ '\n')

/-- `read -r record_id existing_ip`: a word, and the rest without the blanks around it. -/
def readWords (printed : Text) : Text × Text :=
  let line := (firstLine printed).dropWhile isBlank
  let rest := line.dropWhile fun c => !isBlank c
  (line.takeWhile fun c => !isBlank c, (rest.dropWhile isBlank).rdropWhile isBlank)

/-- The end of a run that has asked for a write. -/
def report (type name ip existingIp : Text) : Option Text → Cmd Unit
  | none => ask (.log ("ddns-update: " ++ String.ofList name ++ " " ++ String.ofList type ++ " -> " ++
      String.ofList (orDefault ip "deleted".toList) ++ " (was " ++
      String.ofList (orDefault existingIp "no record".toList) ++ ")"))
  | some resp => ask (.log ("ERROR: ddns-update: Cloudflare update failed for " ++ String.ofList name ++
      " (" ++ String.ofList type ++ "): " ++ String.ofList resp))

/-- `_cf_upsert`. -/
def cfUpsert (type name : Text) (ip : Address) : Cmd Unit := do
  let lookup ← ask (.lookup type name)
  let (recordId, existingIp) := readWords (foundText lookup)
  if recordId = errWord then
    ask (.log ("ERROR: ddns-update: Cloudflare lookup failed for " ++ String.ofList name ++
      " (" ++ String.ofList type ++ ")"))
  else if recordId = newWord then
    if ip.text = [] then pure ()
    else do
      let resp ← ask (.create type name ip.text)
      report type name ip.text existingIp resp
  else if existingIp = ip.text then pure ()
  else if ip.text = [] then do
    let resp ← ask (.delete recordId)
    report type name ip.text existingIp resp
  else do
    let resp ← ask (.patch recordId ip.text)
    report type name ip.text existingIp resp

/-! ## The service -/

/-- What becomes of a call: a reply may be lost after the call was carried out. -/
inductive Outcome where
  | done
  | lost
  | failed (resp : Text)

/-- The service, and the connection to it. Of the records that match, a lookup may list any,
in any order, but does not come back empty when there are some. -/
structure Service where
  outcome : Nat → Outcome
  page : Nat → List DnsRecord → List DnsRecord
  page_subset : ∀ n rs, page n rs ⊆ rs
  page_ne : ∀ n rs, rs ≠ [] → page n rs ≠ []
  newId : Zone → RecordId
  fresh : ∀ zone, newId zone ∉ zone.records.map DnsRecord.id

structure World where
  zone : Zone
  log : List String
  calls : Nat

/-- One record more, of the lifetime and without the proxy, as the body asks. -/
def Service.create (s : Service) (zone : Zone) (type name content : Text) : Zone :=
  zone.create ⟨s.newId zone, type, name, content, 300, false⟩ (s.fresh zone)

/-- A write, with the zone it makes. -/
def Service.write (s : Service) (zone' : Zone) (w : World) : Option Text × World :=
  match s.outcome w.calls with
  | .done => (none, { w with zone := zone', calls := w.calls + 1 })
  | .lost => (some [], { w with zone := zone', calls := w.calls + 1 })
  | .failed resp => (some resp, { w with calls := w.calls + 1 })

def Service.listing (s : Service) (type name : Text) (w : World) : Option (List DnsRecord) :=
  match s.outcome w.calls with
  | .done => some (s.page w.calls (w.zone.found type name))
  | _ => none

def handler (s : Service) : Prog.Handler Sys World
  | .lookup type name, w => (s.listing type name w, { w with calls := w.calls + 1 })
  | .create type name content, w => s.write (s.create w.zone type name content) w
  | .delete id, w => s.write (w.zone.delete id) w
  | .patch id content, w => s.write (w.zone.patch id content) w
  | .log text, w => ((), { w with log := w.log ++ [text] })

/-- One run of the update. -/
def upsert (s : Service) (type name : Text) (ip : Address) (w : World) : World :=
  ((cfUpsert type name ip).exec (handler s) w).2

def Op.isWrite : Op → Bool
  | .create _ _ _ => true
  | .delete _ => true
  | .patch _ _ => true
  | _ => false

/-- The writes that a run asks for. -/
def writes (s : Service) (type name : Text) (ip : Address) (w : World) : List Op :=
  ((cfUpsert type name ip).trace (handler s) w).filter Op.isWrite

/-! ## What the shell reads -/

/-- What `read` makes of a content. -/
def shown (content : Text) : Text := ((firstLine content).dropWhile isBlank).rdropWhile isBlank

theorem isBlank_of_hex {c : Char} (h : isHexDigit c = true) : isBlank c = false ∧ c ≠ '\x00' ∧ c ≠ '\n' := by
  refine ⟨?_, ?_, ?_⟩
  · by_contra hb
    simp only [Bool.not_eq_false, isBlank, Bool.or_eq_true, decide_eq_true_eq] at hb
    rcases hb with rfl | rfl
    · exact absurd h (by decide)
    · exact absurd h (by decide)
  · rintro rfl
    exact absurd h (by decide)
  · rintro rfl
    exact absurd h (by decide)

theorem readWords_record (r : DnsRecord) :
    readWords (foundText (some [r])) = (r.id.text, shown r.content) := by
  have hhex := fun c hc => isBlank_of_hex (List.all_eq_true.mp r.id.hex.2 c hc)
  have hline : firstLine (r.id.text ++ ' ' :: r.content) = r.id.text ++ ' ' :: firstLine r.content := by
    have hkeep : r.id.text.filter (· ≠ '\x00') = r.id.text :=
      List.filter_eq_self.mpr fun c hc => decide_eq_true (hhex c hc).2.1
    rw [firstLine, List.filter_append, hkeep, List.takeWhile_append_of_pos fun c hc => decide_eq_true (hhex c hc).2.2]
    rfl
  have hfirst : (r.id.text ++ ' ' :: firstLine r.content).dropWhile isBlank =
      r.id.text ++ ' ' :: firstLine r.content := by
    obtain ⟨c, cs, hcs⟩ := List.exists_cons_of_ne_nil r.id.hex.1
    have hc := (hhex c (hcs ▸ List.mem_cons_self)).1
    rw [hcs, List.cons_append, List.dropWhile_cons_of_neg (by simp [hc])]
  have hword : ∀ c ∈ r.id.text, (!isBlank c) = true := fun c hc => by rw [(hhex c hc).1]; rfl
  rw [foundText, readWords]
  simp only [hline, hfirst]
  rw [List.takeWhile_append_of_pos hword, List.dropWhile_append_of_pos hword]
  simp [isBlank, shown]

theorem shown_address (ip : Address) : shown ip.text = ip.text := by
  have hplain : ∀ c ∈ ip.text, isBlank c = false ∧ c ≠ '\x00' ∧ c ≠ '\n' := by
    intro c hc
    have h := List.all_eq_true.mp ip.plain c hc
    simp only [isAddressChar, Bool.or_eq_true, decide_eq_true_eq] at h
    rcases h with (h | rfl) | rfl
    · exact isBlank_of_hex h
    · decide
    · decide
  have hline : firstLine ip.text = ip.text := by
    rw [firstLine, List.filter_eq_self.mpr fun c hc => decide_eq_true (hplain c hc).2.1,
      List.takeWhile_eq_self_iff.mpr fun c hc => decide_eq_true (hplain c hc).2.2]
  have hnone : ∀ t : Text, (∀ c ∈ t, isBlank c = false) → t.dropWhile isBlank = t := by
    intro t ht
    cases t with
    | nil => rfl
    | cons c t => rw [List.dropWhile_cons_of_neg (by simp [ht c List.mem_cons_self])]
  rw [shown, hline, hnone _ fun c hc => (hplain c hc).1, List.rdropWhile,
    hnone _ fun c hc => (hplain c (List.mem_reverse.mp hc)).1, List.reverse_reverse]

/-! ## The zone after a write -/

section zone

variable {type name : Text} {zone : Zone} {r : DnsRecord}

theorem mem_found : r ∈ zone.found type name ↔ r ∈ zone.records ∧ r.Matches type name := by
  simp [Zone.found]

theorem eq_of_id {q : DnsRecord} (hr : r ∈ zone.records) (hq : q ∈ zone.records) (h : q.id.text = r.id.text) :
    q = r :=
  List.inj_on_of_nodup_map zone.distinct hq hr (RecordId.ext h)

theorem found_create (s : Service) (content : Text) :
    (s.create zone type name content).found type name =
      zone.found type name ++ [⟨s.newId zone, type, name, content, 300, false⟩] := by
  rw [Zone.found, Service.create, Zone.create, List.filter_append,
    List.filter_cons_of_pos (by simp [DnsRecord.Matches]), List.filter_nil, Zone.found]

theorem others_create (s : Service) (content : Text) :
    (s.create zone type name content).others type name = zone.others type name := by
  rw [Zone.others, Service.create, Zone.create, List.filter_append,
    List.filter_cons_of_neg (by simp [DnsRecord.Matches]), List.filter_nil, List.append_nil, Zone.others]

theorem found_delete (id : Text) :
    (zone.delete id).found type name = (zone.found type name).filter fun q => q.id.text ≠ id := by
  rw [Zone.found, Zone.delete, List.filter_filter, Zone.found, List.filter_filter]
  exact List.filter_congr fun q _ => Bool.and_comm _ _

theorem others_delete (hr : r ∈ zone.found type name) :
    (zone.delete r.id.text).others type name = zone.others type name := by
  obtain ⟨hmem, hmatch⟩ := mem_found.mp hr
  rw [Zone.others, Zone.delete, List.filter_filter, Zone.others]
  apply List.filter_congr
  intro q hq
  by_cases hid : q.id.text = r.id.text
  · simp [eq_of_id hmem hq hid, hmatch]
  · simp [hid]

theorem matches_patch (id content : Text) (q : DnsRecord) :
    (if q.id.text = id then { q with content := content } else q).Matches type name ↔ q.Matches type name := by
  split <;> rfl

theorem found_patch (id content : Text) :
    (zone.patch id content).found type name =
      (zone.found type name).map fun q => if q.id.text = id then { q with content := content } else q := by
  rw [Zone.found, Zone.patch, List.filter_map, Zone.found]
  refine congrArg _ (List.filter_congr fun q _ => ?_)
  rw [Function.comp_apply, decide_eq_decide]
  exact matches_patch id content q

theorem others_patch (hr : r ∈ zone.found type name) (content : Text) :
    (zone.patch r.id.text content).others type name = zone.others type name := by
  obtain ⟨hmem, hmatch⟩ := mem_found.mp hr
  rw [Zone.others, Zone.patch, List.filter_map, Zone.others]
  have hkeep : ∀ q : DnsRecord, decide (¬ q.Matches type name) =
      ((fun q => decide (¬ DnsRecord.Matches type name q)) ∘
        fun q => if q.id.text = r.id.text then { q with content := content } else q) q := by
    intro q
    rw [Function.comp_apply, decide_eq_decide, matches_patch]
  rw [← List.filter_congr fun q _ => hkeep q]
  apply (List.map_congr_left fun q hq => ?_).trans (List.map_id _)
  obtain ⟨hq, hnot⟩ := List.mem_filter.mp hq
  refine if_neg fun hid => ?_
  rw [eq_of_id hmem hq hid] at hnot
  exact of_decide_eq_true hnot hmatch

end zone

/-! ## One run -/

/-- The write a run chooses, from the first record of the lookup alone. -/
def choice (type name : Text) (ip : Address) : Option (List DnsRecord) → Option Op
  | none => none
  | some [] => if ip.text = [] then none else some (.create type name ip.text)
  | some (r :: _) =>
    if shown r.content = ip.text then none
    else if ip.text = [] then some (.delete r.id.text)
    else some (.patch r.id.text ip.text)

/-- The zone after a write that is carried out. -/
def Service.after (s : Service) (zone : Zone) : Op → Zone
  | .create type name content => s.create zone type name content
  | .delete id => zone.delete id
  | .patch id content => zone.patch id content
  | _ => zone

section run

variable {s : Service} {type name : Text} {ip : Address} {w : World}

/-- The lookup of a run, and the world after it. -/
def Service.looked (s : Service) (type name : Text) (w : World) : Option (List DnsRecord) × World :=
  handler s (.lookup type name) w

theorem looked_zone : (s.looked type name w).2.zone = w.zone := rfl

/-- The zone after a write that is asked for. -/
def Service.wrote (s : Service) (v : World) (o : Op) : Zone :=
  match s.outcome v.calls with
  | .failed _ => v.zone
  | _ => s.after v.zone o

theorem write_zone (o : Op) (v : World) : (s.write (s.after v.zone o) v).2.zone = s.wrote v o := by
  unfold Service.write Service.wrote
  cases s.outcome v.calls <;> rfl

theorem exec_report (existing : Text) (resp : Option Text) (v : World) :
    ((report type name ip.text existing resp).exec (handler s) v).2.zone = v.zone ∧
      ((report type name ip.text existing resp).trace (handler s) v).filter Op.isWrite = [] := by
  cases resp <;> exact ⟨rfl, rfl⟩

theorem id_ne (r : DnsRecord) : r.id.text ≠ errWord ∧ r.id.text ≠ newWord := by
  constructor
  · intro h
    exact absurd (List.all_eq_true.mp r.id.hex.2 'R' (by rw [h]; decide)) (by decide)
  · intro h
    exact absurd (List.all_eq_true.mp r.id.hex.2 'N' (by rw [h]; decide)) (by decide)

theorem exec_ask_bind {α : Type} (o : Op) (f : o.Answer → Cmd α) (v : World) :
    (ask o >>= f).exec (handler s) v = (f (handler s o v).1).exec (handler s) (handler s o v).2 := rfl

theorem trace_ask_bind {α : Type} (o : Op) (f : o.Answer → Cmd α) (v : World) :
    (ask o >>= f).trace (handler s) v = o :: (f (handler s o v).1).trace (handler s) (handler s o v).2 := rfl

/-- A run asks for the write it has chosen and for no other, and leaves the zone as that makes it. -/
theorem run_eq :
    (upsert s type name ip w).zone = ((choice type name ip (s.looked type name w).1).elim w.zone
      (s.wrote (s.looked type name w).2)) ∧
    writes s type name ip w = (choice type name ip (s.looked type name w).1).toList := by
  unfold upsert writes cfUpsert
  have hlookup : ¬ Op.isWrite (.lookup type name) = true := Bool.false_ne_true
  rw [exec_ask_bind, trace_ask_bind, ← @looked_zone s type name w, List.filter_cons_of_neg hlookup]
  unfold Service.looked
  generalize handler s (.lookup type name) w = look
  obtain ⟨lookup, v⟩ := look
  have hnew : readWords (foundText (some [])) = (newWord, []) := by decide
  have hfirst : newWord ≠ errWord := by decide
  rcases lookup with _ | _ | ⟨r, rs⟩
  · exact ⟨rfl, rfl⟩
  · simp only [hnew, if_neg hfirst, if_true]
    by_cases hip : ip.text = []
    · simp only [choice, if_pos hip]
      exact ⟨rfl, rfl⟩
    · simp only [choice, if_neg hip]
      rw [exec_ask_bind, trace_ask_bind]
      obtain ⟨hzone, hquiet⟩ := @exec_report s type name ip [] (handler s (.create type name ip.text) v).1
        (handler s (.create type name ip.text) v).2
      exact ⟨hzone.trans (write_zone (.create type name ip.text) v), congrArg (_ :: ·) hquiet⟩
  -- the word that is read is an identifier, so neither `ERR` nor `NEW`
  · have hrecord : readWords (foundText (some (r :: rs))) = (r.id.text, shown r.content) := readWords_record r
    rw [hrecord]
    simp only [if_neg (id_ne r).1, if_neg (id_ne r).2]
    by_cases hshown : shown r.content = ip.text
    · simp only [choice, if_pos hshown]
      exact ⟨rfl, rfl⟩
    · by_cases hip : ip.text = []
      · simp only [choice, if_neg hshown, if_pos hip]
        rw [exec_ask_bind, trace_ask_bind]
        obtain ⟨hzone, hquiet⟩ := @exec_report s type name ip (shown r.content) (handler s (.delete r.id.text) v).1
          (handler s (.delete r.id.text) v).2
        exact ⟨hzone.trans (write_zone (.delete r.id.text) v), congrArg (_ :: ·) hquiet⟩
      · simp only [choice, if_neg hshown, if_neg hip]
        rw [exec_ask_bind, trace_ask_bind]
        obtain ⟨hzone, hquiet⟩ := @exec_report s type name ip (shown r.content)
          (handler s (.patch r.id.text ip.text) v).1 (handler s (.patch r.id.text ip.text) v).2
        exact ⟨hzone.trans (write_zone (.patch r.id.text ip.text) v), congrArg (_ :: ·) hquiet⟩

/-- What a run whose calls succeed does to the zone, and the writes it asks for. -/
inductive Ran (s : Service) (type name : Text) (ip : Address) (zone : Zone) : Zone → List Op → Prop
  | nothing (habsent : zone.found type name = []) (hip : ip.text = []) : Ran s type name ip zone zone []
  | created (habsent : zone.found type name = []) (hip : ip.text ≠ []) :
    Ran s type name ip zone (s.create zone type name ip.text) [.create type name ip.text]
  | kept {r : DnsRecord} (hr : r ∈ zone.found type name) (hshown : shown r.content = ip.text) :
    Ran s type name ip zone zone []
  | deleted {r : DnsRecord} (hr : r ∈ zone.found type name) (hshown : shown r.content ≠ ip.text)
    (hip : ip.text = []) : Ran s type name ip zone (zone.delete r.id.text) [.delete r.id.text]
  | patched {r : DnsRecord} (hr : r ∈ zone.found type name) (hshown : shown r.content ≠ ip.text)
    (hip : ip.text ≠ []) : Ran s type name ip zone (zone.patch r.id.text ip.text) [.patch r.id.text ip.text]

theorem choice_ran (hdone : s.outcome w.calls = .done) :
    Ran s type name ip w.zone ((choice type name ip (s.looked type name w).1).elim w.zone (s.after w.zone))
      (choice type name ip (s.looked type name w).1).toList := by
  have hlook : (s.looked type name w).1 = some (s.page w.calls (w.zone.found type name)) := by
    change s.listing type name w = _
    unfold Service.listing
    rw [hdone]
  rw [hlook]
  rcases hpage : s.page w.calls (w.zone.found type name) with _ | ⟨r, rs⟩
  · have habsent : w.zone.found type name = [] := by
      by_contra hne
      exact s.page_ne _ _ hne hpage
    by_cases hip : ip.text = []
    · rw [choice, if_pos hip]
      exact .nothing habsent hip
    · rw [choice, if_neg hip]
      exact .created habsent hip
  · have hr : r ∈ w.zone.found type name := s.page_subset _ _ (by rw [hpage]; exact List.mem_cons_self)
    by_cases hshown : shown r.content = ip.text
    · rw [choice, if_pos hshown]
      exact .kept hr hshown
    · by_cases hip : ip.text = []
      · rw [choice, if_neg hshown, if_pos hip]
        exact .deleted hr hshown hip
      · rw [choice, if_neg hshown, if_neg hip]
        exact .patched hr hshown hip

theorem Ran.others {zone zone' : Zone} {os : List Op} (h : Ran s type name ip zone zone' os) :
    zone'.others type name = zone.others type name := by
  cases h with
  | nothing => rfl
  | created => exact others_create s ip.text
  | kept => rfl
  | deleted hr => exact others_delete hr
  | patched hr => exact others_patch hr ip.text

/-- No run touches another record, whatever becomes of its calls. -/
theorem upsert_others (s : Service) (type name : Text) (ip : Address) (w : World) :
    (upsert s type name ip w).zone.others type name = w.zone.others type name := by
  rw [run_eq.1]
  by_cases hdone : s.outcome w.calls = .done
  · have hran := @choice_ran s type name ip w hdone
    cases hchoice : choice type name ip (s.looked type name w).1 with
    | none => rfl
    | some o =>
      rw [hchoice] at hran
      change (s.wrote _ o).others type name = _
      unfold Service.wrote
      split
      · rfl
      · exact hran.others
  · have hlook : (s.looked type name w).1 = none := by
      change s.listing type name w = _
      unfold Service.listing
      split
      · next h => exact absurd h hdone
      · rfl
    rw [hlook]
    rfl

/-- Every call succeeds. -/
def Service.Works (s : Service) : Prop := ∀ n, s.outcome n = .done

theorem upsert_ran (hs : s.Works) (w : World) :
    Ran s type name ip w.zone (upsert s type name ip w).zone (writes s type name ip w) := by
  have hwrote : s.wrote (s.looked type name w).2 = s.after w.zone := by
    funext o
    unfold Service.wrote
    rw [hs]
    rfl
  rw [run_eq.1, run_eq.2, hwrote]
  exact choice_ran (hs _)

end run

/-! ## Repeating the update -/

/-- The zone holds the one record with the address, or none where that is empty, and of the zone
it started as every other record. -/
structure Current (type name : Text) (ip : Address) (start zone : Zone) : Prop where
  records : (zone.found type name).map DnsRecord.content = if ip.text = [] then [] else [ip.text]
  others : zone.others type name = start.others type name

/-- From some run on the zone is current, and a further run asks for no write. -/
def Converges (s : Service) (type name : Text) (ip : Address) (w : World) : Prop :=
  Settle.Settles (upsert s type name ip)
    (fun v => Current type name ip w.zone v.zone ∧ writes s type name ip v = []) w

/-- No second record where one is to stay, and none that reads as the address without being it. -/
structure Upsertable (type name : Text) (ip : Address) (zone : Zone) : Prop where
  single : ip.text ≠ [] → (zone.found type name).length ≤ 1
  reads : ∀ r ∈ zone.found type name, shown r.content = ip.text → r.content = ip.text ∧ ip.text ≠ []

section repeated

variable {s : Service} {type name : Text} {ip : Address} {start zone zone' : Zone} {os : List Op}

theorem mem_found_patch {r : DnsRecord} {id content : Text} (hr : r ∈ (zone.patch id content).found type name) :
    r.content = content ∨ r ∈ zone.found type name := by
  rw [found_patch] at hr
  obtain ⟨q, hq, rfl⟩ := List.mem_map.mp hr
  split
  · exact .inl rfl
  · exact .inr hq

theorem Ran.upsertable (h : Ran s type name ip zone zone' os) (hu : Upsertable type name ip zone) :
    Upsertable type name ip zone' := by
  cases h with
  | nothing => exact hu
  | created habsent hip =>
    have hfound := @found_create type name zone s ip.text
    rw [habsent, List.nil_append] at hfound
    constructor
    · intro _
      rw [hfound, List.length_singleton]
    · intro r hr _
      rw [hfound, List.mem_singleton] at hr
      rw [hr]
      exact ⟨rfl, hip⟩
  | kept => exact hu
  | deleted hr hshown hip =>
    constructor
    · exact fun hne => absurd hip hne
    · intro q hq
      rw [found_delete] at hq
      exact hu.reads q (List.mem_of_mem_filter hq)
  -- the record that is written reads as the address because it is the address
  | patched hr hshown hip =>
    constructor
    · intro hne
      rw [found_patch, List.length_map]
      exact hu.single hne
    · intro q hq hread
      rcases mem_found_patch hq with hq | hq
      · exact ⟨hq, hip⟩
      · exact hu.reads q hq hread

/-- A run on a current zone asks for nothing and leaves the zone alone. -/
theorem Ran.of_current (h : Ran s type name ip zone zone' os) (hc : Current type name ip start zone) :
    zone' = zone ∧ os = [] := by
  have hrecords := hc.records
  cases h with
  | nothing => exact ⟨rfl, rfl⟩
  | created habsent hip =>
    rw [habsent, if_neg hip] at hrecords
    cases hrecords
  | kept => exact ⟨rfl, rfl⟩
  | deleted hr hshown hip =>
    rw [if_pos hip, List.map_eq_nil_iff] at hrecords
    rw [hrecords] at hr
    exact absurd hr List.not_mem_nil
  | patched hr hshown hip =>
    have hcontent := List.mem_map_of_mem (f := DnsRecord.content) hr
    rw [hrecords, if_neg hip, List.mem_singleton] at hcontent
    rw [hcontent] at hshown
    exact absurd (shown_address ip) hshown

/-- How far a zone is from being current, in runs. -/
def distance (type name : Text) (ip : Address) (zone : Zone) : Nat :=
  if ip.text = [] then (zone.found type name).length
  else if (zone.found type name).map DnsRecord.content = [ip.text] then 0 else 1

theorem Ran.distance_lt (h : Ran s type name ip zone zone' os) (hu : Upsertable type name ip zone)
    (hne : (zone.found type name).map DnsRecord.content ≠ if ip.text = [] then [] else [ip.text]) :
    distance type name ip zone' < distance type name ip zone := by
  -- where the only record becomes the one asked for, the distance is one before and none after
  have hone : ∀ zone₁ : Zone, ip.text ≠ [] → (zone₁.found type name).map DnsRecord.content = [ip.text] →
      distance type name ip zone₁ < distance type name ip zone := by
    intro zone₁ hip hmap
    rw [if_neg hip] at hne
    rw [distance, distance, if_neg hip, if_neg hip, if_pos hmap, if_neg hne]
    exact Nat.one_pos
  have hsole : ∀ r ∈ zone.found type name, ip.text ≠ [] → zone.found type name = [r] := by
    intro r hr hip
    obtain ⟨q, hq⟩ := List.length_eq_one_iff.mp
      ((hu.single hip).antisymm (List.length_pos_of_mem hr))
    rw [hq, List.mem_singleton] at hr
    rw [hq, hr]
  cases h with
  | nothing habsent hip =>
    rw [habsent, if_pos hip] at hne
    exact absurd rfl hne
  | created habsent hip =>
    refine hone _ hip ?_
    rw [found_create, habsent]
    rfl
  | @kept r hr hshown =>
    obtain ⟨hcontent, hip⟩ := hu.reads r hr hshown
    rw [hsole r hr hip, if_neg hip, List.map_singleton, hcontent] at hne
    exact absurd rfl hne
  | @deleted r hr hshown hip =>
    rw [distance, distance, if_pos hip, if_pos hip, found_delete]
    exact List.length_filter_lt_length_iff_exists.mpr ⟨r, hr, by simp⟩
  | @patched r hr hshown hip =>
    refine hone _ hip ?_
    rw [found_patch, hsole r hr hip, List.map_singleton, if_pos rfl]
    rfl

theorem converges_of_upsertable (hs : s.Works) {w : World} (hu : Upsertable type name ip w.zone) :
    Converges s type name ip w := by
  have hkeep : ∀ v : World, Upsertable type name ip v.zone ∧ v.zone.others type name = w.zone.others type name →
      Upsertable type name ip (upsert s type name ip v).zone ∧
        (upsert s type name ip v).zone.others type name = w.zone.others type name := by
    rintro v ⟨hv, ho⟩
    exact ⟨(upsert_ran hs v).upsertable hv, (upsert_others s type name ip v).trans ho⟩
  refine Settle.settles_of_measure (fun v => distance type name ip v.zone) hkeep ?_ ?_ ⟨hu, rfl⟩
  · rintro v - ⟨hc, -⟩
    obtain ⟨hzone, -⟩ := (upsert_ran hs v).of_current hc
    have hc' : Current type name ip w.zone (upsert s type name ip v).zone := hzone.symm ▸ hc
    exact ⟨hc', ((upsert_ran hs _).of_current hc').2⟩
  · rintro v ⟨hv, ho⟩ hnot
    refine (upsert_ran hs v).distance_lt hv fun hrecords => hnot ?_
    have hc : Current type name ip w.zone v.zone := ⟨hrecords, ho⟩
    exact ⟨hc, ((upsert_ran hs v).of_current hc).2⟩

/-- Of several records none is ever removed while there is an address. -/
theorem Ran.length_found (h : Ran s type name ip zone zone' os) (hip : ip.text ≠ [])
    (hne : zone.found type name ≠ []) : (zone'.found type name).length = (zone.found type name).length := by
  cases h with
  | nothing => rfl
  | created habsent => exact absurd habsent hne
  | kept => rfl
  | deleted hr hshown hempty => exact absurd hempty hip
  | patched => rw [found_patch, List.length_map]

/-- A record that reads as the address without being it. -/
def Misread (type name : Text) (ip : Address) (zone : Zone) : Prop :=
  ∃ r ∈ zone.found type name, shown r.content = ip.text ∧ ¬ (r.content = ip.text ∧ ip.text ≠ [])

/-- No write ever falls on a record that reads as the address. -/
theorem Ran.misread (h : Ran s type name ip zone zone' os) (hm : Misread type name ip zone) :
    Misread type name ip zone' := by
  obtain ⟨q, hq, hread, hnot⟩ := hm
  have hother : ∀ r ∈ zone.found type name, shown r.content ≠ ip.text → q.id.text ≠ r.id.text := by
    intro r hr hshown hid
    rw [eq_of_id (mem_found.mp hr).1 (mem_found.mp hq).1 hid] at hread
    exact hshown hread
  cases h with
  | nothing => exact ⟨q, hq, hread, hnot⟩
  | created habsent =>
    rw [habsent] at hq
    exact absurd hq List.not_mem_nil
  | kept => exact ⟨q, hq, hread, hnot⟩
  | deleted hr hshown =>
    refine ⟨q, ?_, hread, hnot⟩
    rw [found_delete]
    exact List.mem_filter.mpr ⟨hq, decide_eq_true (hother _ hr hshown)⟩
  | patched hr hshown =>
    refine ⟨q, ?_, hread, hnot⟩
    rw [found_patch]
    exact List.mem_map.mpr ⟨q, hq, if_neg (hother _ hr hshown)⟩

theorem not_upsertable_iff : ¬ Upsertable type name ip zone ↔
    (ip.text ≠ [] ∧ 1 < (zone.found type name).length) ∨ Misread type name ip zone := by
  constructor
  · intro h
    by_contra hneither
    rw [not_or] at hneither
    refine h ⟨fun hip => Nat.le_of_not_lt fun hmany => hneither.1 ⟨hip, hmany⟩, fun r hr hread => ?_⟩
    by_contra hnot
    exact hneither.2 ⟨r, hr, hread, hnot⟩
  · rintro (⟨hip, hmany⟩ | ⟨r, hr, hread, hnot⟩) h
    · exact absurd (h.single hip) (Nat.not_le_of_lt hmany)
    · exact hnot (h.reads r hr hread)

/-- A zone that cannot be made current stays one. -/
theorem Ran.not_upsertable (h : Ran s type name ip zone zone' os) (hu : ¬ Upsertable type name ip zone) :
    ¬ Upsertable type name ip zone' := by
  rw [not_upsertable_iff] at hu ⊢
  refine hu.imp ?_ h.misread
  rintro ⟨hip, hmany⟩
  have hne : zone.found type name ≠ [] := List.ne_nil_of_length_pos (Nat.zero_lt_of_lt hmany)
  exact ⟨hip, by rwa [h.length_found hip hne]⟩

theorem Current.upsertable (hc : Current type name ip start zone) : Upsertable type name ip zone := by
  have hrecords := hc.records
  constructor
  · intro hip
    have hlen := congrArg List.length hrecords
    rw [if_neg hip, List.length_map] at hlen
    exact hlen.le
  · intro r hr _
    have hcontent := List.mem_map_of_mem (f := DnsRecord.content) hr
    rw [hrecords] at hcontent
    by_cases hip : ip.text = []
    · rw [if_pos hip] at hcontent
      exact absurd hcontent List.not_mem_nil
    · rw [if_neg hip, List.mem_singleton] at hcontent
      exact ⟨hcontent, hip⟩

theorem not_converges_of_not_upsertable (hs : s.Works) {w : World} (hu : ¬ Upsertable type name ip w.zone) :
    ¬ Converges s type name ip w :=
  Settle.not_settles_of_invariant (I := fun v => ¬ Upsertable type name ip v.zone)
    (fun v hv => (upsert_ran hs v).not_upsertable hv) (fun _ hv hc => hv hc.1.upsertable) hu

/-- Repeated with all calls succeeding, on every zone: the update makes the zone current and then
rests, exactly when there is at most one record to be replaced, and none that only reads as
the address. -/
theorem converges_iff (s : Service) (hs : s.Works) (type name : Text) (ip : Address) (w : World) :
    Converges s type name ip w ↔ Upsertable type name ip w.zone := by
  constructor
  · intro h
    by_contra hu
    exact not_converges_of_not_upsertable hs hu h
  · exact converges_of_upsertable hs

/-- Where the contents are addresses, as in records of type A and AAAA, only their number counts. -/
theorem upsertable_iff_of_addresses
    (h : ∀ r ∈ zone.found type name, r.content ≠ [] ∧ ∃ a : Address, a.text = r.content) :
    Upsertable type name ip zone ↔ ip.text = [] ∨ (zone.found type name).length ≤ 1 := by
  constructor
  · intro hu
    by_cases hip : ip.text = []
    · exact .inl hip
    · exact .inr (hu.single hip)
  · intro hone
    constructor
    · exact hone.resolve_left
    · intro r hr hread
      obtain ⟨hne, a, ha⟩ := h r hr
      rw [← ha, shown_address] at hread
      rw [← ha] at hne ⊢
      exact ⟨hread, hread ▸ hne⟩

end repeated

/-! ## A zone with one record, and with two -/

/-- An identifier longer than all that are there. -/
def longId (zone : Zone) : RecordId where
  text := List.replicate ((zone.records.map fun r => r.id.text.length).sum + 1) 'a'
  hex := by
    refine ⟨List.replicate_succ ▸ List.cons_ne_nil _ _, List.all_eq_true.mpr fun c hc => ?_⟩
    rw [(List.mem_replicate.mp hc).2]
    decide

theorem longId_fresh (zone : Zone) : longId zone ∉ zone.records.map DnsRecord.id := by
  intro h
  obtain ⟨r, hr, hid⟩ := List.mem_map.mp h
  have hle : r.id.text.length ≤ (zone.records.map fun r => r.id.text.length).sum :=
    List.le_sum_of_mem (List.mem_map_of_mem hr)
  rw [hid, longId, List.length_replicate] at hle
  omega

/-- Every call succeeds, and a lookup lists all that is found. -/
def readyService : Service where
  outcome _ := .done
  page _ rs := rs
  page_subset _ _ := List.Subset.refl _
  page_ne _ _ h := h
  newId := longId
  fresh := longId_fresh

def endpointName : Text := "wg2.bpl.keekar.au".toList

def publicIp : Address := ⟨"203.0.113.7".toList, by decide⟩

def endpointRecord (id : RecordId) (content : String) : DnsRecord :=
  ⟨id, ['A'], endpointName, content.toList, 300, false⟩

def firstId : RecordId := ⟨['1'], by decide⟩
def secondId : RecordId := ⟨['2'], by decide⟩

/-- The address of the network before. -/
def movedZone : Zone := ⟨[endpointRecord firstId "198.51.100.9"], by decide⟩

theorem moved_device_converges :
    readyService.Works ∧ Converges readyService ['A'] endpointName publicIp ⟨movedZone, [], 0⟩ := by
  have hworks : readyService.Works := fun _ => rfl
  have hupsertable : Upsertable ['A'] endpointName publicIp movedZone := ⟨by decide, by decide⟩
  exact ⟨hworks, (converges_iff readyService hworks ['A'] endpointName publicIp ⟨movedZone, [], 0⟩).mpr hupsertable⟩

/-- The same, and a second record that is right. -/
def doubledZone : Zone :=
  ⟨[endpointRecord secondId "203.0.113.7", endpointRecord firstId "198.51.100.9"], by decide⟩

/-- The run finds nothing to do, and the address of before stays. -/
theorem second_record_stays :
    writes readyService ['A'] endpointName publicIp ⟨doubledZone, [], 0⟩ = [] ∧
      ¬ Converges readyService ['A'] endpointName publicIp ⟨doubledZone, [], 0⟩ :=
  ⟨by decide +kernel, not_converges_of_not_upsertable (fun _ => rfl)
    fun hu => absurd (hu.single (by decide)) (by decide)⟩

end Ddns
