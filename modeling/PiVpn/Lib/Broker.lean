import Mathlib

/-! A broker that retains the last message of each topic. Clients reach it over links that
deliver in order and may break. A link that ends without a farewell has its will published, and
a client that connects again takes its older link over. -/

namespace Broker

inductive Packet (T P : Type) where
  | connect
  | publish (topic : T) (payload : P)
  | disconnect

inductive Stage where
  | dialled
  | refused
  | live
  | over
  deriving DecidableEq

/-- One connection of a client, and what is on its way to the broker. -/
structure Link (C T P : Type) where
  client : C
  will : T × P
  wire : List (Packet T P)
  stage : Stage

structure State (C T P : Type) where
  retained : T → Option P
  links : List (Link C T P)

inductive Event where
  | receive (i : Nat)
  | refuse (i : Nat)
  | lose (i : Nat)
  | reinstall

variable {C T P : Type}

def Link.ended (l : Link C T P) : Link C T P := { l with wire := [], stage := .over }

/-- Whether packets still reach the broker. -/
def Link.isOpen (l : Link C T P) : Bool := l.stage = .dialled || l.stage = .live

section
variable [DecidableEq T]

/-- A link ends; the will of a live one is published. -/
def State.finish (s : State C T P) (i : Nat) : State C T P :=
  match s.links[i]? with
  | none => s
  | some l =>
    { retained := if l.stage = .live then Function.update s.retained l.will.1 l.will.2 else s.retained
      links := s.links.set i l.ended }

variable [DecidableEq C]

/-- The live link of a client ends. -/
def State.takeOver (s : State C T P) (c : C) : State C T P :=
  match s.links.findIdx? fun l => l.client = c && l.stage = .live with
  | none => s
  | some j => s.finish j

/-- The broker takes the next packet of a link. -/
def State.receive (s : State C T P) (i : Nat) : Option (State C T P) :=
  match s.links[i]? with
  | none => none
  | some l =>
    match l.wire, l.stage with
    | .connect :: w, .dialled =>
      let s := s.takeOver l.client
      some { s with links := s.links.set i { l with wire := w, stage := .live } }
    | .publish t x :: w, .live =>
      some ⟨Function.update s.retained t x, s.links.set i { l with wire := w }⟩
    | .disconnect :: _, .live => some { s with links := s.links.set i l.ended }
    | _, _ => none

/-- Without its data the broker comes back with nothing retained and nobody connected. -/
def State.reinstall (s : State C T P) : State C T P := ⟨fun _ => none, s.links.map Link.ended⟩

def State.step (s : State C T P) : Event → Option (State C T P)
  | .receive i => s.receive i
  | .refuse i =>
    match s.links[i]? with
    | some l =>
      if l.stage = .dialled then some { s with links := s.links.set i { l.ended with stage := .refused } } else none
    | none => none
  | .lose i =>
    match s.links[i]? with
    | some l => if l.isOpen then some (s.finish i) else none
    | none => none
  | .reinstall => some s.reinstall

end

/-! ## The client's side -/

/-- A new link, with nothing but the request to connect on it. -/
def State.dial (s : State C T P) (c : C) (will : T × P) : State C T P :=
  { s with links := s.links ++ [⟨c, will, [.connect], .dialled⟩] }

/-- What is written to a link that has ended is lost. -/
def State.send (s : State C T P) (i : Nat) (p : Packet T P) : State C T P :=
  match s.links[i]? with
  | none => s
  | some l => if l.isOpen then { s with links := s.links.set i { l with wire := l.wire ++ [p] } } else s

/-! ## What the wire comes to -/

section
variable [DecidableEq T]

/-- The retained messages once the wire is read. -/
def after : (T → Option P) → List (Packet T P) → T → Option P
  | r, [] => r
  | r, .publish t x :: w => after (Function.update r t x) w
  | r, _ :: w => after r w

theorem after_append (r : T → Option P) (w w' : List (Packet T P)) : after r (w ++ w') = after (after r w) w' := by
  induction w generalizing r with
  | nil => rfl
  | cons p w ih =>
    cases p with
    | connect => exact ih r
    | publish t x => exact ih (Function.update r t x)
    | disconnect => exact ih r

end

def Packet.Writes (t : T) : Packet T P → Prop
  | .publish t' _ => t' = t
  | _ => False

/-- A client that says on a topic of its own whether it is up, and on another what it is. -/
structure Role (C T P : Type) where
  client : C
  topic : T
  note : T
  up : P
  down : P
  distinct : down ≠ up

variable {ρ : Role C T P} {r r' r'' : T → Option P}

/-- The first store is as cautious as the second. -/
structure Below (ρ : Role C T P) (r r' : T → Option P) : Prop where
  topic : r' ρ.topic = some ρ.up → r ρ.topic = some ρ.up
  note : (r ρ.note).isSome = true → (r' ρ.note).isSome = true

/-- Nothing that the role is about differs, but a note may be new. -/
structure Alike (ρ : Role C T P) (r r' : T → Option P) : Prop where
  topic : r' ρ.topic = r ρ.topic
  note : (r ρ.note).isSome = true → (r' ρ.note).isSome = true

theorem Alike.below (h : Alike ρ r r') : Below ρ r r' := ⟨fun hup => h.topic ▸ hup, h.note⟩

theorem Alike.refl (r : T → Option P) : Alike ρ r r := ⟨rfl, id⟩

section
variable [DecidableEq T]

theorem isSome_update {t t' : T} {x : P} (h : (r t').isSome = true) :
    (Function.update r t (some x) t').isSome = true := by
  rw [Function.update_apply]
  split
  · rfl
  · exact h

theorem Below.update (h : Below ρ r r') (t : T) (x : P) :
    Below ρ (Function.update r t x) (Function.update r' t x) := by
  constructor
  · rw [Function.update_apply, Function.update_apply]
    split
    · exact id
    · exact h.topic
  · rw [Function.update_apply, Function.update_apply]
    split
    · exact id
    · exact h.note

theorem Alike.update (h : Alike ρ r r') (t : T) (x : P) :
    Alike ρ (Function.update r t x) (Function.update r' t x) := by
  constructor
  · rw [Function.update_apply, Function.update_apply, h.topic]
  · exact (h.below.update t x).note

theorem Alike.other {t : T} (ht : t ≠ ρ.topic) (x : P) : Alike ρ r (Function.update r t x) :=
  ⟨Function.update_of_ne ht.symm _ _, isSome_update⟩

theorem Alike.after (h : Alike ρ r r') (w : List (Packet T P)) : Alike ρ (after r w) (after r' w) := by
  induction w generalizing r r' with
  | nil => exact h
  | cons p w ih =>
    cases p with
    | connect => exact ih h
    | publish t x => exact ih (h.update t x)
    | disconnect => exact ih h

theorem Below.after (h : Below ρ r r') (w : List (Packet T P)) : Below ρ (Broker.after r w) (Broker.after r' w) := by
  induction w generalizing r r' with
  | nil => exact h
  | cons p w ih =>
    cases p with
    | connect => exact ih h
    | publish t x => exact ih (h.update t x)
    | disconnect => exact ih h

/-- On its way to the broker, the word that the client is up follows a note, and a farewell
does not leave it behind. -/
def Sound (ρ : Role C T P) : (T → Option P) → List (Packet T P) → Prop
  | _, [] => True
  | r, .connect :: w => Sound ρ r w
  | r, .publish t x :: w =>
    (t = ρ.topic → x = ρ.up → (r ρ.note).isSome = true) ∧ Sound ρ (Function.update r t x) w
  | r, .disconnect :: _ => r ρ.topic ≠ some ρ.up

theorem Sound.mono {w : List (Packet T P)} (h : Sound ρ r w) (hr : Below ρ r r') : Sound ρ r' w := by
  induction w generalizing r r' with
  | nil => trivial
  | cons p w ih =>
    cases p with
    | connect => exact ih h hr
    | publish t x => exact ⟨fun ht hx => hr.note (h.1 ht hx), ih h.2 (hr.update t x)⟩
    | disconnect => exact fun hup => h (hr.topic hup)

theorem Sound.concat {w : List (Packet T P)} {p : Packet T P} (h : Sound ρ r w)
    (hp : Sound ρ (Broker.after r w) [p]) : Sound ρ r (w ++ [p]) := by
  induction w generalizing r with
  | nil => exact hp
  | cons q w ih =>
    cases q with
    | connect => exact ih h hp
    | publish t x => exact ⟨h.1, ih h.2 hp⟩
    | disconnect => exact h

end

/-! ## The links of a role -/

variable {s s' : State C T P} {links : List (Link C T P)} {i j : Nat} {l m : Link C T P}

/-- Its client has one live link and the will to go down, and nobody else writes its topic. -/
structure Owned (ρ : Role C T P) (links : List (Link C T P)) : Prop where
  one : ∀ (i j : Nat) (l m : Link C T P), links[i]? = some l → links[j]? = some m →
    l.client = ρ.client → m.client = ρ.client → l.stage = .live → m.stage = .live → i = j
  will : ∀ (i : Nat) (l : Link C T P), links[i]? = some l → l.client = ρ.client → l.will = (ρ.topic, ρ.down)
  others : ∀ (i : Nat) (l : Link C T P), links[i]? = some l → l.client ≠ ρ.client →
    l.will.1 ≠ ρ.topic ∧ ∀ p ∈ l.wire, ¬ p.Writes ρ.topic

def HasLive (c : C) (links : List (Link C T P)) : Prop :=
  ∃ (i : Nat) (l : Link C T P), links[i]? = some l ∧ l.client = c ∧ l.stage = .live

def Belongs (c : C) (links : List (Link C T P)) (i : Nat) : Prop := ∃ l, links[i]? = some l ∧ l.client = c

theorem getElem?_set_cases {α : Type} {l : List α} {i j : Nat} {a b : α} (h : (l.set i a)[j]? = some b) :
    j = i ∧ b = a ∨ j ≠ i ∧ l[j]? = some b := by
  rw [List.getElem?_set] at h
  split at h
  · next hij =>
    split at h
    · exact .inl ⟨hij.symm, (Option.some.inj h).symm⟩
    · cases h
  · next hij => exact .inr ⟨fun heq => hij heq.symm, h⟩

theorem Belongs.set {c : C} (h : Belongs c links i) (hl : links[j]? = some l) (hclient : m.client = l.client) :
    Belongs c (links.set j m) i := by
  obtain ⟨k, hk, hc⟩ := h
  by_cases hij : j = i
  · subst hij
    obtain rfl : l = k := Option.some.inj (hl.symm.trans hk)
    exact ⟨m, List.getElem?_set_self (List.getElem?_eq_some_iff.mp hl).1, hclient.trans hc⟩
  · exact ⟨k, by rw [List.getElem?_set_ne hij, hk], hc⟩

theorem HasLive.set {c : C} (h : HasLive c links) (hl : links[i]? = some l)
    (hm : l.client = c → l.stage = .live → m.client = c ∧ m.stage = .live) : HasLive c (links.set i m) := by
  obtain ⟨j, k, hk, hkc, hks⟩ := h
  by_cases hij : i = j
  · subst hij
    obtain rfl : l = k := Option.some.inj (hl.symm.trans hk)
    have hlt := (List.getElem?_eq_some_iff.mp hl).1
    exact ⟨i, m, List.getElem?_set_self hlt, hm hkc hks⟩
  · exact ⟨j, k, by rw [List.getElem?_set_ne hij, hk], hkc, hks⟩

theorem Owned.set (h : Owned ρ links) (hl : links[i]? = some l) (hclient : m.client = l.client)
    (hwill : m.will = l.will) (hwire : l.client ≠ ρ.client → ∀ p ∈ m.wire, ¬ p.Writes ρ.topic)
    (hlive : m.stage = .live → l.client = ρ.client → ∀ (j : Nat) (k : Link C T P), links[j]? = some k →
      k.client = ρ.client → k.stage = .live → j = i) : Owned ρ (links.set i m) where
  one := by
    intro j k a b ha hb hac hbc has hbs
    rcases getElem?_set_cases ha with ⟨rfl, rfl⟩ | ⟨-, ha'⟩
    · rcases getElem?_set_cases hb with ⟨rfl, rfl⟩ | ⟨-, hb'⟩
      · rfl
      · exact (hlive has (hclient ▸ hac) k b hb' hbc hbs).symm
    · rcases getElem?_set_cases hb with ⟨rfl, rfl⟩ | ⟨-, hb'⟩
      · exact hlive hbs (hclient ▸ hbc) j a ha' hac has
      · exact h.one j k a b ha' hb' hac hbc has hbs
  will := by
    intro j a ha hac
    rcases getElem?_set_cases ha with ⟨rfl, rfl⟩ | ⟨-, ha'⟩
    · rw [hwill]
      exact h.will j l hl (hclient ▸ hac)
    · exact h.will j a ha' hac
  others := by
    intro j a ha hac
    rcases getElem?_set_cases ha with ⟨rfl, rfl⟩ | ⟨-, ha'⟩
    · have hlc : l.client ≠ ρ.client := hclient ▸ hac
      rw [hwill]
      exact ⟨(h.others j l hl hlc).1, hwire hlc⟩
    · exact h.others j a ha' hac

theorem Owned.ended (h : Owned ρ links) (hl : links[i]? = some l) (hclient : m.client = l.client)
    (hwill : m.will = l.will) (hwire : m.wire = []) (hstage : m.stage ≠ .live) : Owned ρ (links.set i m) :=
  h.set hl hclient hwill (fun _ p hp => by simp [hwire] at hp) fun hlive => absurd hlive hstage

section
variable [DecidableEq T]

theorem State.finish_of_some (h : s.links[i]? = some l) : s.finish i =
    ⟨if l.stage = .live then Function.update s.retained l.will.1 l.will.2 else s.retained,
      s.links.set i l.ended⟩ := by
  rw [State.finish, h]

theorem Belongs.finish {c : C} (h : Belongs c s.links i) (j : Nat) : Belongs c (s.finish j).links i := by
  cases hl : s.links[j]? with
  | none =>
    rw [State.finish, hl]
    exact h
  | some l =>
    rw [State.finish_of_some hl]
    exact h.set hl rfl

theorem Owned.finish (h : Owned ρ s.links) (i : Nat) : Owned ρ (s.finish i).links := by
  rw [State.finish]
  split
  · exact h
  · next l hl => exact h.ended hl rfl rfl rfl (by simp [Link.ended])

/-! ## Who is shown as up is connected -/

/-- The store that the wire of a link is read into. -/
def State.store (s : State C T P) (l : Link C T P) : T → Option P :=
  if l.stage = .live then s.retained else fun _ => none

/-- A client that is shown as up has left its note and is connected, and nothing on its way
changes that. -/
structure Presence (ρ : Role C T P) (s : State C T P) : Prop where
  shown : s.retained ρ.topic = some ρ.up → (s.retained ρ.note).isSome = true ∧ HasLive ρ.client s.links
  sound : ∀ (i : Nat) (l : Link C T P), s.links[i]? = some l → l.client = ρ.client → Sound ρ (s.store l) l.wire

theorem Presence.set (h : Presence ρ s) (hown : Owned ρ s.links) (hl : s.links[i]? = some l)
    (hr : l.client = ρ.client ∧ l.stage = .live ∨ Below ρ s.retained r)
    (hm : m.client = ρ.client → Sound ρ (if m.stage = .live then r else fun _ => none) m.wire)
    (hshown : r ρ.topic = some ρ.up → (r ρ.note).isSome = true ∧ HasLive ρ.client (s.links.set i m)) :
    Presence ρ ⟨r, s.links.set i m⟩ := by
  refine ⟨hshown, fun j k hk hkc => ?_⟩
  rcases getElem?_set_cases hk with ⟨rfl, rfl⟩ | ⟨hne, hk'⟩
  · exact hm hkc
  · have hsound := h.sound j k hk' hkc
    rw [State.store] at hsound ⊢
    by_cases hks : k.stage = .live
    · rw [if_pos hks] at hsound ⊢
      rcases hr with ⟨hlc, hls⟩ | hbelow
      · exact absurd (hown.one j i k l hk' hl hkc hlc hks hls) hne
      · exact hsound.mono hbelow
    · rw [if_neg hks] at hsound ⊢
      exact hsound

theorem Presence.finish (h : Presence ρ s) (hown : Owned ρ s.links) (i : Nat) : Presence ρ (s.finish i) := by
  cases hl : s.links[i]? with
  | none =>
    rw [State.finish, hl]
    exact h
  | some l =>
    rw [State.finish_of_some hl]
    by_cases hc : l.client = ρ.client
    · by_cases hs : l.stage = .live
      · have hdown : Function.update s.retained l.will.1 (some l.will.2) ρ.topic = some ρ.down := by
          rw [hown.will i l hl hc, Function.update_self]
        rw [if_pos hs]
        refine h.set hown hl (.inl ⟨hc, hs⟩) (fun _ => trivial) fun hup => ?_
        exact absurd (Option.some.inj (hdown.symm.trans hup)) ρ.distinct
      · rw [if_neg hs]
        refine h.set hown hl (.inr (Alike.refl _).below) (fun _ => trivial) fun hup => ?_
        exact ⟨(h.shown hup).1, (h.shown hup).2.set hl fun _ hlive => absurd hlive hs⟩
    · have halike : Alike ρ s.retained
          (if l.stage = .live then Function.update s.retained l.will.1 (some l.will.2) else s.retained) := by
        split
        · exact Alike.other (hown.others i l hl hc).1 _
        · exact Alike.refl _
      refine h.set hown hl (.inr halike.below) (fun hc' => absurd hc' hc) fun hup => ?_
      obtain ⟨hnote, hlive⟩ := h.shown (halike.below.topic hup)
      exact ⟨halike.note hnote, hlive.set hl fun hc' => absurd hc' hc⟩

/-! ## Steps of the broker -/

variable [DecidableEq C]

/-- A client without a live link is left alone; else one of its live links ends. -/
theorem State.takeOver_cases (s : State C T P) (c : C) :
    s.takeOver c = s ∧ ¬ HasLive c s.links ∨
      ∃ j l, s.links[j]? = some l ∧ l.client = c ∧ l.stage = .live ∧ s.takeOver c = s.finish j := by
  rw [State.takeOver]
  cases hfind : s.links.findIdx? fun l => l.client = c && l.stage = .live with
  | none =>
    refine .inl ⟨rfl, ?_⟩
    rintro ⟨j, l, hl, hc, hlive⟩
    have := List.findIdx?_eq_none_iff.mp hfind l (List.mem_of_getElem? hl)
    simp [hc, hlive] at this
  | some j =>
    obtain ⟨hj, hmatch, -⟩ := List.findIdx?_eq_some_iff_getElem.mp hfind
    rw [Bool.and_eq_true, decide_eq_true_eq, decide_eq_true_eq] at hmatch
    exact .inr ⟨j, s.links[j], List.getElem?_eq_getElem hj, hmatch.1, hmatch.2, rfl⟩

theorem Owned.takeOver (h : Owned ρ s.links) (c : C) : Owned ρ (s.takeOver c).links := by
  rcases s.takeOver_cases c with ⟨heq, -⟩ | ⟨j, l, -, -, -, heq⟩
  · rwa [heq]
  · rw [heq]
    exact h.finish j

theorem Owned.not_hasLive (h : Owned ρ s.links) : ¬ HasLive ρ.client (s.takeOver ρ.client).links := by
  rcases s.takeOver_cases ρ.client with ⟨heq, hnone⟩ | ⟨j, l, hl, hc, hlive, heq⟩
  · rwa [heq]
  · rw [heq, State.finish_of_some hl]
    rintro ⟨k, m, hm, hmc, hms⟩
    rcases getElem?_set_cases hm with ⟨-, rfl⟩ | ⟨hne, hm⟩
    · cases hms
    · exact hne (h.one k j m l hm hl hmc hc hms hlive)

theorem State.takeOver_keeps (hl : s.links[i]? = some l) (hstage : l.stage ≠ .live) (c : C) :
    (s.takeOver c).links[i]? = some l := by
  rcases s.takeOver_cases c with ⟨heq, -⟩ | ⟨j, m, hm, -, hlive, heq⟩
  · rwa [heq]
  · have hne : j ≠ i := by
      rintro rfl
      rw [Option.some.inj (hm.symm.trans hl)] at hlive
      exact hstage hlive
    rw [heq, State.finish_of_some hm, List.getElem?_set_ne hne, hl]

inductive Stepped (s : State C T P) : State C T P → Prop where
  | accepted (i : Nat) (l : Link C T P) (w : List (Packet T P)) (hl : s.links[i]? = some l)
      (hwire : l.wire = .connect :: w) (hstage : l.stage = .dialled) :
      Stepped s ⟨(s.takeOver l.client).retained,
        (s.takeOver l.client).links.set i { l with wire := w, stage := .live }⟩
  | published (i : Nat) (l : Link C T P) (t : T) (x : P) (w : List (Packet T P)) (hl : s.links[i]? = some l)
      (hwire : l.wire = .publish t x :: w) (hstage : l.stage = .live) :
      Stepped s ⟨Function.update s.retained t x, s.links.set i { l with wire := w }⟩
  | left (i : Nat) (l : Link C T P) (w : List (Packet T P)) (hl : s.links[i]? = some l)
      (hwire : l.wire = .disconnect :: w) (hstage : l.stage = .live) :
      Stepped s ⟨s.retained, s.links.set i l.ended⟩
  | refused (i : Nat) (l : Link C T P) (hl : s.links[i]? = some l) (hstage : l.stage = .dialled) :
      Stepped s ⟨s.retained, s.links.set i { l.ended with stage := .refused }⟩
  | lost (i : Nat) : Stepped s (s.finish i)
  | reinstalled : Stepped s s.reinstall

theorem stepped_of_step {e : Event} (h : s.step e = some s') : Stepped s s' := by
  cases e with
  | receive i =>
    rw [State.step, State.receive] at h
    split at h
    · cases h
    · next l hl =>
      split at h
      · next w hwire hstage =>
        cases h
        exact .accepted i l w hl hwire hstage
      · next t x w hwire hstage =>
        cases h
        exact .published i l t x w hl hwire hstage
      · next w hwire hstage =>
        cases h
        exact .left i l w hl hwire hstage
      · cases h
  | refuse i =>
    rw [State.step] at h
    split at h
    · next l hl =>
      split at h
      · next hstage =>
        cases h
        exact .refused i l hl hstage
      · cases h
    · cases h
  | lose i =>
    rw [State.step] at h
    split at h
    · split at h
      · cases h
        exact .lost i
      · cases h
    · cases h
  | reinstall =>
    cases h
    exact .reinstalled

/-- Nothing that a broker does is anything else. -/
def Obeys (broker : State C T P → Event → Option (State C T P)) : Prop :=
  ∀ s e s', broker s e = some s' → Stepped s s'

theorem obeys_step : Obeys (State.step (C := C) (T := T) (P := P)) := fun _ _ _ => stepped_of_step

theorem Owned.stepped (h : Owned ρ s.links) (hs : Stepped s s') : Owned ρ s'.links := by
  cases hs with
  | accepted i l w hl hwire hstage =>
    have hl' := State.takeOver_keeps hl (by simp [hstage]) l.client
    have hown := h.takeOver l.client
    refine hown.set hl' rfl rfl (fun hc p hp => ?_) fun _ hc j k hk hkc hks => ?_
    · exact (hown.others i l hl' hc).2 p (hwire ▸ List.mem_cons_of_mem _ hp)
    · rw [hc] at hk
      exact absurd ⟨j, k, hk, hkc, hks⟩ h.not_hasLive
  | published i l t x w hl hwire hstage =>
    refine h.set hl rfl rfl (fun hc p hp => ?_) fun _ hc j k hk hkc hks => ?_
    · exact (h.others i l hl hc).2 p (hwire ▸ List.mem_cons_of_mem _ hp)
    · exact h.one j i k l hk hl hkc hc hks hstage
  | left i l w hl hwire hstage => exact h.ended hl rfl rfl rfl (by simp [Link.ended])
  | refused i l hl hstage => exact h.ended hl rfl rfl rfl (by simp)
  | lost i => exact h.finish i
  | reinstalled =>
    have hback : ∀ (i : Nat) (l : Link C T P), s.reinstall.links[i]? = some l →
        ∃ m, s.links[i]? = some m ∧ l = m.ended := by
      intro i l hl
      rw [State.reinstall, List.getElem?_map, Option.map_eq_some_iff] at hl
      obtain ⟨m, hm, rfl⟩ := hl
      exact ⟨m, hm, rfl⟩
    constructor
    · intro i j l m hl hm hlc hmc hls
      obtain ⟨l, -, rfl⟩ := hback i l hl
      cases hls
    · intro i l hl hc
      obtain ⟨m, hm, rfl⟩ := hback i l hl
      exact h.will i m hm hc
    · intro i l hl hc
      obtain ⟨m, hm, rfl⟩ := hback i l hl
      exact ⟨(h.others i m hm hc).1, fun p hp => absurd hp List.not_mem_nil⟩

theorem Presence.takeOver (h : Presence ρ s) (hown : Owned ρ s.links) (c : C) : Presence ρ (s.takeOver c) := by
  rcases s.takeOver_cases c with ⟨heq, -⟩ | ⟨j, l, -, -, -, heq⟩
  · rwa [heq]
  · rw [heq]
    exact h.finish hown j

theorem Presence.stepped (h : Presence ρ s) (hown : Owned ρ s.links) (hs : Stepped s s') : Presence ρ s' := by
  cases hs with
  | accepted i l w hl hwire hstage =>
    have hl' := State.takeOver_keeps hl (by simp [hstage]) l.client
    have htaken := h.takeOver hown l.client
    have hnone : l.client = ρ.client → (s.takeOver l.client).retained ρ.topic ≠ some ρ.up := by
      intro hc hup
      have hlive := (htaken.shown hup).2
      rw [hc] at hlive
      exact hown.not_hasLive hlive
    refine htaken.set (hown.takeOver l.client) hl' (.inr (Alike.refl _).below) (fun hc => ?_) fun hup => ?_
    · have hsound := h.sound i l hl hc
      rw [State.store, if_neg (by simp [hstage]), hwire] at hsound
      rw [if_pos rfl]
      exact Sound.mono (w := w) hsound ⟨fun hup => absurd hup (hnone hc), fun hsome => by cases hsome⟩
    · exact ⟨(htaken.shown hup).1, (htaken.shown hup).2.set hl' fun hc => absurd hup (hnone hc)⟩
  | published i l t x w hl hwire hstage =>
    by_cases hc : l.client = ρ.client
    · have hsound := h.sound i l hl hc
      rw [State.store, if_pos hstage, hwire] at hsound
      have hlive : HasLive ρ.client (s.links.set i { l with wire := w }) :=
        ⟨i, _, List.getElem?_set_self (List.getElem?_eq_some_iff.mp hl).1, hc, hstage⟩
      refine h.set hown hl (.inl ⟨hc, hstage⟩) (fun _ => ?_) fun hup => ⟨isSome_update ?_, hlive⟩
      · rw [if_pos hstage]
        exact hsound.2
      · rw [Function.update_apply] at hup
        split at hup
        · next ht => exact hsound.1 ht.symm (Option.some.inj hup)
        · exact (h.shown hup).1
    · have ht : t ≠ ρ.topic := by
        intro ht
        exact (hown.others i l hl hc).2 (.publish t x) (by simp [hwire]) ht
      have halike : Alike ρ s.retained (Function.update s.retained t (some x)) := Alike.other ht x
      refine h.set hown hl (.inr halike.below) (fun hc' => absurd hc' hc) fun hup => ?_
      obtain ⟨hnote, hlive⟩ := h.shown (halike.below.topic hup)
      exact ⟨halike.note hnote, hlive.set hl fun hc' => absurd hc' hc⟩
  | left i l w hl hwire hstage =>
    have hsafe : l.client = ρ.client → s.retained ρ.topic ≠ some ρ.up := by
      intro hc
      have hsound := h.sound i l hl hc
      rw [State.store, if_pos hstage, hwire] at hsound
      exact hsound
    refine h.set hown hl (.inr (Alike.refl _).below) (fun _ => trivial) fun hup => ?_
    exact ⟨(h.shown hup).1, (h.shown hup).2.set hl fun hc => absurd hup (hsafe hc)⟩
  | refused i l hl hstage =>
    refine h.set hown hl (.inr (Alike.refl _).below) (fun _ => trivial) fun hup => ?_
    exact ⟨(h.shown hup).1, (h.shown hup).2.set hl fun _ hlive => by simp [hstage] at hlive⟩
  | lost i => exact h.finish hown i
  | reinstalled =>
    refine ⟨fun hup => (by cases hup), fun i l hl hc => ?_⟩
    rw [State.reinstall, List.getElem?_map, Option.map_eq_some_iff] at hl
    obtain ⟨m, -, rfl⟩ := hl
    trivial

theorem Belongs.stepped {c : C} (h : Belongs c s.links i) (hs : Stepped s s') : Belongs c s'.links i := by
  cases hs with
  | accepted j l w hl hwire hstage =>
    have htaken : Belongs c (s.takeOver l.client).links i := by
      rcases s.takeOver_cases l.client with ⟨heq, -⟩ | ⟨k, m, -, -, -, heq⟩
      · rwa [heq]
      · rw [heq]
        exact h.finish k
    exact htaken.set (State.takeOver_keeps hl (by simp [hstage]) l.client) rfl
  | published j l t x w hl hwire hstage => exact h.set hl rfl
  | left j l w hl hwire hstage => exact h.set hl rfl
  | refused j l hl hstage => exact h.set hl rfl
  | lost j => exact h.finish j
  | reinstalled =>
    obtain ⟨l, hl, hc⟩ := h
    refine ⟨l.ended, ?_, hc⟩
    rw [State.reinstall, List.getElem?_map, hl]
    rfl

end

/-! ## What a client knows of a link that was answered -/

section
variable [DecidableEq T]

/-- The link is the client's, the broker has answered it, and while it is live its wire comes
to a store of some kind. -/
def Answered (ρ : Role C T P) (Q : (T → Option P) → Prop) (s : State C T P) (i : Nat) : Prop :=
  ∃ l, s.links[i]? = some l ∧ l.client = ρ.client ∧ l.stage ≠ .dialled ∧
    (l.stage = .live → Q (after s.retained l.wire))

/-- The kind depends on what the role is about. -/
def OfRole (ρ : Role C T P) (Q : (T → Option P) → Prop) : Prop := ∀ r r', Alike ρ r r' → Q r → Q r'

variable {Q R : (T → Option P) → Prop}

theorem Answered.mono (h : Answered ρ Q s i) (hQ : ∀ r, Q r → R r) : Answered ρ R s i := by
  obtain ⟨l, hl, hc, hstage, hread⟩ := h
  exact ⟨l, hl, hc, hstage, fun hlive => hQ _ (hread hlive)⟩

theorem Answered.set_ne (h : Answered ρ Q s i) (hQ : OfRole ρ Q) (hne : j ≠ i) (hr : Alike ρ s.retained r) :
    Answered ρ Q ⟨r, s.links.set j m⟩ i := by
  obtain ⟨l, hl, hc, hstage, hread⟩ := h
  refine ⟨l, ?_, hc, hstage, fun hlive => hQ _ _ (hr.after l.wire) (hread hlive)⟩
  rw [List.getElem?_set_ne hne, hl]

theorem Answered.ended (h : Answered ρ Q s i) (hl : s.links[i]? = some l) (hclient : m.client = l.client)
    (hdialled : m.stage ≠ .dialled) (hlive : m.stage ≠ .live) : Answered ρ Q ⟨r, s.links.set i m⟩ i := by
  obtain ⟨l', hl', hc, -⟩ := h
  obtain rfl : l' = l := Option.some.inj (hl'.symm.trans hl)
  refine ⟨m, List.getElem?_set_self (List.getElem?_eq_some_iff.mp hl).1, hclient.trans hc, hdialled, ?_⟩
  exact fun h => absurd h hlive

theorem Answered.beside (h : Answered ρ Q s i) (hown : Owned ρ s.links) (hl : s.links[j]? = some l)
    (hc : l.client = ρ.client) (hs : l.stage = .live) (hne : j ≠ i) :
    Answered ρ Q ⟨r, s.links.set j m⟩ i := by
  obtain ⟨k, hk, hkc, hstage, -⟩ := h
  refine ⟨k, ?_, hkc, hstage, fun hks => absurd (hown.one j i l k hl hk hc hkc hs hks) hne⟩
  rw [List.getElem?_set_ne hne, hk]

theorem Answered.finish (h : Answered ρ Q s i) (hQ : OfRole ρ Q) (hown : Owned ρ s.links) (j : Nat) :
    Answered ρ Q (s.finish j) i := by
  cases hl : s.links[j]? with
  | none =>
    rw [State.finish, hl]
    exact h
  | some l =>
    rw [State.finish_of_some hl]
    by_cases hij : j = i
    · subst hij
      exact h.ended hl rfl (by simp [Link.ended]) (by simp [Link.ended])
    · by_cases hs : l.stage = .live
      · rw [if_pos hs]
        by_cases hc : l.client = ρ.client
        · exact h.beside hown hl hc hs hij
        · exact h.set_ne hQ hij (Alike.other (hown.others j l hl hc).1 _)
      · rw [if_neg hs]
        exact h.set_ne hQ hij (Alike.refl _)

variable [DecidableEq C]

theorem Answered.takeOver (h : Answered ρ Q s i) (hQ : OfRole ρ Q) (hown : Owned ρ s.links) (c : C) :
    Answered ρ Q (s.takeOver c) i := by
  rcases s.takeOver_cases c with ⟨heq, -⟩ | ⟨j, l, -, -, -, heq⟩
  · rwa [heq]
  · rw [heq]
    exact h.finish hQ hown j

theorem Answered.stepped (h : Answered ρ Q s i) (hQ : OfRole ρ Q) (hown : Owned ρ s.links)
    (hs : Stepped s s') : Answered ρ Q s' i := by
  cases hs with
  | accepted j l w hl hwire hstage =>
    have hne : j ≠ i := by
      rintro rfl
      obtain ⟨m, hm, -, hms, -⟩ := h
      exact hms (by rw [Option.some.inj (hm.symm.trans hl), hstage])
    exact (h.takeOver hQ hown l.client).set_ne hQ hne (Alike.refl _)
  | published j l t x w hl hwire hstage =>
    by_cases hij : j = i
    · subst hij
      obtain ⟨m, hm, hc, hms, hread⟩ := h
      obtain rfl : m = l := Option.some.inj (hm.symm.trans hl)
      refine ⟨_, List.getElem?_set_self (List.getElem?_eq_some_iff.mp hl).1, hc, hms, fun hlive => ?_⟩
      have hread := hread hlive
      rw [hwire] at hread
      exact hread
    · by_cases hc : l.client = ρ.client
      · exact h.beside hown hl hc hstage hij
      · refine h.set_ne hQ hij (Alike.other (fun ht => ?_) x)
        exact (hown.others j l hl hc).2 (.publish t x) (by simp [hwire]) ht
  | left j l w hl hwire hstage =>
    by_cases hij : j = i
    · subst hij
      exact h.ended hl rfl (by simp [Link.ended]) (by simp [Link.ended])
    · exact h.set_ne hQ hij (Alike.refl _)
  | refused j l hl hstage =>
    by_cases hij : j = i
    · subst hij
      exact h.ended hl rfl (by simp) (by simp)
    · exact h.set_ne hQ hij (Alike.refl _)
  | lost j => exact h.finish hQ hown j
  | reinstalled =>
    obtain ⟨l, hl, hc, -⟩ := h
    refine ⟨l.ended, ?_, hc, by simp [Link.ended], fun hlive => by simp [Link.ended] at hlive⟩
    rw [State.reinstall, List.getElem?_map, hl]
    rfl

end

/-! ## Steps of a client -/

theorem getElem?_concat_cases {α : Type} {l : List α} {i : Nat} {a b : α} (h : (l ++ [a])[i]? = some b) :
    i = l.length ∧ b = a ∨ l[i]? = some b := by
  rcases lt_or_ge i l.length with hi | hi
  · rw [List.getElem?_append_left hi] at h
    exact .inr h
  · rw [List.getElem?_append_right hi, List.getElem?_singleton] at h
    split at h
    · next hzero => exact .inl ⟨by omega, (Option.some.inj h).symm⟩
    · cases h

theorem getElem?_concat_of_some {α : Type} {l : List α} {i : Nat} {a b : α} (h : l[i]? = some b) :
    (l ++ [a])[i]? = some b := by
  rw [List.getElem?_append_left (List.getElem?_eq_some_iff.mp h).1, h]

theorem Belongs.dial {c : C} (h : Belongs c s.links i) (c' : C) (will : T × P) :
    Belongs c (s.dial c' will).links i := by
  obtain ⟨l, hl, hc⟩ := h
  exact ⟨l, getElem?_concat_of_some hl, hc⟩

theorem Owned.dial (h : Owned ρ s.links) {c : C} {will : T × P}
    (hown : c = ρ.client → will = (ρ.topic, ρ.down)) (hother : c ≠ ρ.client → will.1 ≠ ρ.topic) :
    Owned ρ (s.dial c will).links where
  one := by
    intro i j l m hl hm hlc hmc hls hms
    rcases getElem?_concat_cases hl with ⟨-, rfl⟩ | hl
    · cases hls
    · rcases getElem?_concat_cases hm with ⟨-, rfl⟩ | hm
      · cases hms
      · exact h.one i j l m hl hm hlc hmc hls hms
  will := by
    intro i l hl hc
    rcases getElem?_concat_cases hl with ⟨-, rfl⟩ | hl
    · exact hown hc
    · exact h.will i l hl hc
  others := by
    intro i l hl hc
    rcases getElem?_concat_cases hl with ⟨-, rfl⟩ | hl
    · refine ⟨hother hc, fun p hp => ?_⟩
      rw [List.mem_singleton.mp hp]
      exact id
    · exact h.others i l hl hc

section
variable [DecidableEq T]

theorem Presence.dial (h : Presence ρ s) (c : C) (will : T × P) : Presence ρ (s.dial c will) := by
  constructor
  · intro hup
    obtain ⟨hnote, j, l, hl, hc, hs⟩ := h.shown hup
    exact ⟨hnote, j, l, getElem?_concat_of_some hl, hc, hs⟩
  · intro i l hl hc
    rcases getElem?_concat_cases hl with ⟨-, rfl⟩ | hl
    · trivial
    · exact h.sound i l hl hc

theorem Answered.dial (h : Answered ρ Q s i) (c : C) (will : T × P) : Answered ρ Q (s.dial c will) i := by
  obtain ⟨l, hl, hc, hstage, hread⟩ := h
  exact ⟨l, getElem?_concat_of_some hl, hc, hstage, hread⟩

end

theorem State.send_cases (s : State C T P) (i : Nat) (p : Packet T P) :
    s.send i p = s ∨ ∃ l, s.links[i]? = some l ∧ l.isOpen = true ∧
      s.send i p = ⟨s.retained, s.links.set i { l with wire := l.wire ++ [p] }⟩ := by
  rw [State.send]
  split
  · exact .inl rfl
  · next l hl =>
    split
    · next hopen => exact .inr ⟨l, hl, hopen, rfl⟩
    · exact .inl rfl

theorem Belongs.send {c : C} (h : Belongs c s.links i) (j : Nat) (p : Packet T P) :
    Belongs c (s.send j p).links i := by
  rcases s.send_cases j p with heq | ⟨l, hl, -, heq⟩
  · rwa [heq]
  · rw [heq]
    exact h.set hl rfl

theorem Owned.send (h : Owned ρ s.links) {p : Packet T P}
    (hp : ∀ l, s.links[i]? = some l → l.client ≠ ρ.client → ¬ p.Writes ρ.topic) :
    Owned ρ (s.send i p).links := by
  rcases s.send_cases i p with heq | ⟨l, hl, hopen, heq⟩
  · rwa [heq]
  · rw [heq]
    refine h.set hl rfl rfl (fun hc q hq => ?_) fun hs hc j k hk hkc hks => h.one j i k l hk hl hkc hc hks hs
    rcases List.mem_append.mp hq with hq | hq
    · exact (h.others i l hl hc).2 q hq
    · rw [List.mem_singleton.mp hq]
      exact hp l hl hc

section
variable [DecidableEq T]

theorem Presence.send (h : Presence ρ s) (hown : Owned ρ s.links) {p : Packet T P}
    (hp : ∀ l, s.links[i]? = some l → l.client = ρ.client → l.isOpen = true →
      Sound ρ (after (s.store l) l.wire) [p]) : Presence ρ (s.send i p) := by
  rcases s.send_cases i p with heq | ⟨l, hl, hopen, heq⟩
  · rwa [heq]
  · rw [heq]
    refine h.set hown hl (.inr (Alike.refl _).below) (fun hc => (h.sound i l hl hc).concat (hp l hl hc hopen)) ?_
    intro hup
    exact ⟨(h.shown hup).1, (h.shown hup).2.set hl fun hc hs => ⟨hc, hs⟩⟩

theorem Answered.send_ne (h : Answered ρ Q s i) (hne : j ≠ i) (p : Packet T P) : Answered ρ Q (s.send j p) i := by
  rcases s.send_cases j p with heq | ⟨l, hl, hopen, heq⟩
  · rwa [heq]
  · obtain ⟨m, hm, hc, hstage, hread⟩ := h
    rw [heq]
    exact ⟨m, by rw [List.getElem?_set_ne hne, hm], hc, hstage, hread⟩

theorem Answered.send (h : Answered ρ Q s i) {p : Packet T P} (hp : ∀ r, Q r → R (after r [p])) :
    Answered ρ R (s.send i p) i := by
  obtain ⟨m, hm, hc, hstage, hread⟩ := h
  rw [State.send, hm]
  dsimp only
  split
  · refine ⟨_, List.getElem?_set_self (List.getElem?_eq_some_iff.mp hm).1, hc, hstage, fun hlive => ?_⟩
    rw [after_append]
    exact hp _ (hread hlive)
  · next hclosed =>
    refine ⟨m, hm, hc, hstage, fun hlive => absurd ?_ hclosed⟩
    have hlive : m.stage = .live := hlive
    simp [Link.isOpen, hlive]

end

end Broker
