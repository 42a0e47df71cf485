import PiVpn.Helper.Service
import PiVpn.Helper.AllOrNothing

/-! What becomes of the conf text of a tunnel while the helper serves: its interface part stays,
its peers stay until they are removed, and what is new was asked for. -/

namespace Helper.Service
open Text Pattern Effect

/-! ## The parts of an edited text -/

section
variable {r : AddPeer} {key : WgKey} {content : Text}

theorem sections_withoutPeer (key : WgKey) (content : Text) :
    sections (withoutPeer key content) = (endNl (sections content).1,
      ((sections content).2.filter fun b => !mentions key b).map endNl) := by
  have hcut := cut_sections content
  have hkept : Cut (sections content).1 ((sections content).2.filter fun b => !mentions key b) :=
    ⟨hcut.header, fun b hb => hcut.blocks b (List.mem_filter.mp hb).1, hcut.noCr.1,
      fun b hb => hcut.noCr.2 b (List.mem_filter.mp hb).1⟩
  exact hkept.rebuild.2

theorem rstripNl_append_stop {a : Text} {c : Char} (hc : c ≠ '\n') (t : Text) :
    rstripNl (a ++ c :: t) = a ++ c :: rstripNl t := rdropWhile_append_cons (by simpa using hc) a t

theorem setting_key (key : WgKey) : ∃ u tail, setting publicKeyWord key.text = u ++ '=' :: tail ∧
    (tail = [] ∨ tail = ['\n']) := by
  rcases wgKeyPattern_iff.mp key.ok with ⟨body, last, hkey, -⟩ | ⟨k, ⟨body, last, hk, -⟩, hkey⟩
  · refine ⟨publicKeyWord ++ (equals ++ (body ++ [last])), [], ?_, .inl rfl⟩
    rw [hkey, setting]
    simp only [List.append_assoc, List.cons_append, List.nil_append]
  · refine ⟨publicKeyWord ++ (equals ++ (body ++ [last])), ['\n'], ?_, .inr rfl⟩
    rw [hkey, hk, setting]
    simp only [List.append_assoc, List.cons_append, List.nil_append]

/-- The newlines at the end of a section hide no key. -/
theorem mentions_endNl {b : Text} (h : mentions key b = true) : mentions key (endNl b) = true := by
  rw [mentions, decide_eq_true_eq] at h ⊢
  obtain ⟨s, t, rfl⟩ := h
  obtain ⟨u, tail, hsetting, htail⟩ := setting_key key
  have hend : endNl (s ++ (u ++ '=' :: tail) ++ t) = s ++ u ++ '=' :: (rstripNl (tail ++ t) ++ ['\n']) := by
    have hassoc : s ++ (u ++ '=' :: tail) ++ t = s ++ u ++ '=' :: (tail ++ t) := by simp
    rw [endNl, hassoc, rstripNl_append_stop (by decide), List.append_assoc, List.cons_append]
  have hprefix : tail <+: rstripNl (tail ++ t) ++ ['\n'] := by
    rcases htail with rfl | rfl
    · exact List.nil_prefix
    · have hstrip : rstripNl (['\n'] ++ t) <+: '\n' :: t := List.rdropWhile_prefix _ _
      cases hcs : rstripNl (['\n'] ++ t) with
      | nil => exact ⟨[], rfl⟩
      | cons c cs =>
        rw [hcs] at hstrip
        obtain rfl := (List.cons_prefix_cons.mp hstrip).1
        exact ⟨cs ++ ['\n'], rfl⟩
  obtain ⟨rest, hrest⟩ := hprefix
  rw [hsetting, hend, ← hrest]
  exact ⟨s, rest, by simp⟩

end

/-! ## From one text to a later one -/

/-- Nothing that was removed from the tunnel is mentioned in the section. -/
def Spared (name : String) (es : List Edit) (b : Text) : Prop :=
  ∀ r, .remove r ∈ es → r.tunnel.text = name → mentions r.publicKey (endNl b) = false

/-- The section is one that was added to the tunnel. -/
def Added (name : String) (es : List Edit) (b : Text) : Prop :=
  ∃ r, .add r ∈ es ∧ r.tunnel.text = name ∧ endNl b ∈ (pieces r).map endNl

/-- Up to the newlines at the ends of the parts: the interface part is the same, a peer is gone
only if its key was removed, and a new one was added. -/
structure Descends (name : String) (es : List Edit) (content content' : Text) : Prop where
  interface : endNl (sections content').1 = endNl (sections content).1
  kept : ∀ b ∈ (sections content).2, Spared name es b → endNl b ∈ (sections content').2.map endNl
  grown : ∀ b ∈ (sections content').2, endNl b ∈ (sections content).2.map endNl ∨ Added name es b

section
variable {name : String} {es es' : List Edit} {content content' content'' : Text}

theorem Descends.refl (name : String) (es : List Edit) (content : Text) : Descends name es content content :=
  ⟨rfl, fun _ hb _ => List.mem_map_of_mem hb, fun _ hb => .inl (List.mem_map_of_mem hb)⟩

theorem Spared.mono (h : Spared name es' b) (hsub : es ⊆ es') : Spared name es b :=
  fun r hr => h r (hsub hr)

theorem Added.mono (h : Added name es b) (hsub : es ⊆ es') : Added name es' b := by
  obtain ⟨r, hr, htunnel, hpiece⟩ := h
  exact ⟨r, hsub hr, htunnel, hpiece⟩

theorem Descends.mono (h : Descends name es content content') (hsub : es ⊆ es') :
    Descends name es' content content' :=
  ⟨h.interface, fun b hb hspared => h.kept b hb (hspared.mono hsub),
    fun b hb => (h.grown b hb).imp_right fun hadded => hadded.mono hsub⟩

theorem Descends.trans (h : Descends name es content content') (h' : Descends name es content' content'') :
    Descends name es content content'' := by
  refine ⟨h'.interface.trans h.interface, fun b hb hspared => ?_, fun b hb => ?_⟩
  · obtain ⟨b', hb', hsame⟩ := List.mem_map.mp (h.kept b hb hspared)
    have hspared' : Spared name es b' := fun r hr htunnel => hsame ▸ hspared r hr htunnel
    rw [← hsame]
    exact h'.kept b' hb' hspared'
  · rcases h'.grown b hb with hold | hadded
    · obtain ⟨b', hb', hsame⟩ := List.mem_map.mp hold
      rcases h.grown b' hb' with hold' | ⟨r, hr, htunnel, hpiece⟩
      · exact .inl (hsame ▸ hold')
      · exact .inr ⟨r, hr, htunnel, hsame ▸ hpiece⟩
    · exact .inr hadded

theorem map_endNl_endNl (bs : List Text) : (bs.map endNl).map endNl = bs.map endNl := by
  rw [List.map_map]
  exact List.map_congr_left fun b _ => endNl_endNl b

theorem descends_withPeer {r : AddPeer} (hr : .add r ∈ es) (hname : r.tunnel.text = name) (content : Text) :
    Descends name es content (withPeer r content) := by
  have hsections := sections_withPeer r content
  refine ⟨?_, fun b hb _ => ?_, fun b hb => ?_⟩
  · rw [hsections, endNl_endNl]
  · rw [hsections, List.map_append, map_endNl_endNl]
    exact List.mem_append_left _ (List.mem_map_of_mem hb)
  · rw [hsections] at hb
    rcases List.mem_append.mp hb with hold | hnew
    · obtain ⟨b', hb', rfl⟩ := List.mem_map.mp hold
      rw [endNl_endNl]
      exact .inl (List.mem_map_of_mem hb')
    · exact .inr ⟨r, hr, hname, List.mem_map_of_mem hnew⟩

theorem descends_withoutPeer {r : RemovePeer} (hr : .remove r ∈ es) (hname : r.tunnel.text = name)
    (content : Text) :
    Descends name es content (withoutPeer r.publicKey content) := by
  have hsections := sections_withoutPeer r.publicKey content
  refine ⟨?_, fun b hb hspared => ?_, fun b hb => .inl ?_⟩
  · rw [hsections, endNl_endNl]
  · have hunmentioned : mentions r.publicKey b = false := by
      by_contra hmentions
      have hend := mentions_endNl (Bool.of_not_eq_false hmentions)
      rw [hspared r hr hname] at hend
      cases hend
    rw [hsections, map_endNl_endNl]
    exact List.mem_map_of_mem (List.mem_filter.mpr ⟨hb, by rw [hunmentioned]; rfl⟩)
  · rw [hsections] at hb
    obtain ⟨b', hb', rfl⟩ := List.mem_map.mp hb
    rw [endNl_endNl]
    exact List.mem_map_of_mem (List.mem_filter.mp hb').1

/-- An edit other than a deletion leads from one text to the next. -/
theorem descends_apply {e : Edit} {v : Confs} (hv : v name = some content) (he : e ∈ es)
    (hkeep : ∀ t, e = .delete t → t.text ≠ name) :
    ∃ content', e.apply v name = some content' ∧ Descends name es content content' := by
  by_cases hname : e.tunnel = name
  · have happly : e.apply v name = e.text (some content) := by
      rw [Edit.apply, hname, Function.update_self, hv]
    rw [happly]
    cases e with
    | create r | begin r => exact ⟨content, rfl, .refl _ _ _⟩
    | delete t => exact absurd hname (hkeep t rfl)
    | add r =>
      rw [Edit.text]
      split
      · exact ⟨content, rfl, .refl _ _ _⟩
      · exact ⟨_, rfl, descends_withPeer he hname content⟩
    | remove r => exact ⟨_, rfl, descends_withoutPeer he hname content⟩
  · refine ⟨content, ?_, .refl _ _ _⟩
    rw [Edit.apply, Function.update_of_ne (Ne.symm hname), hv]

theorem descends_applyAll {v : Confs} (hv : v name = some content)
    (hkeep : ∀ t, .delete t ∈ es → t.text ≠ name) :
    ∃ content', Pool.applyAll Edit.apply es v name = some content' ∧ Descends name es content content' := by
  have hall : ∀ (made : List Edit) (v : Confs) (content : Text), made ⊆ es → v name = some content →
      ∃ content', Pool.applyAll Edit.apply made v name = some content' ∧ Descends name es content content' := by
    intro made
    induction made with
    | nil => exact fun v content _ hv => ⟨content, hv, .refl _ _ _⟩
    | cons e made ih =>
      intro v content hsub hv
      have he : e ∈ es := hsub List.mem_cons_self
      obtain ⟨content₁, hfirst, hdescends⟩ := descends_apply hv he (fun t ht => hkeep t (ht ▸ he))
      obtain ⟨content₂, hrest, hlater⟩ :=
        ih (e.apply v) content₁ (fun x hx => hsub (List.mem_cons_of_mem e hx)) hfirst
      exact ⟨content₂, hrest, hdescends.trans hlater⟩
  exact hall es v content (fun _ h => h) hv

end

/-! ## While the helper serves -/

section
variable {repr : Json → String} {events : List Event} {p p' : Process} {name : String} {content : Text}

/-- However the connections overlap, whoever calls, whatever the subprocesses do and wherever the
helper is killed: a tunnel that nobody asks to delete keeps its interface part, loses only peers
whose key is removed, and gains only peers that are added. -/
theorem conf_text_descends (hrun : Transition.steps (step repr) events p = some p')
    (hspares : ∀ e ∈ events, e.Spares Shared.confs) (hidle : p.sessions = [])
    (hconf : p.shared.confs name = some content)
    (hkeep : ∀ t, .delete t ∈ Pool.changesOf Caller.edits Caller.torn events → t.text ≠ name) :
    ∃ content', p'.shared.confs name = some content' ∧
      Descends name (Pool.changesOf Caller.edits Caller.torn events) content content' := by
  obtain ⟨made, hmade, hsub⟩ := Pool.changes_of_run contract_serve hrun hspares hidle
  obtain ⟨content', hlast, hdescends⟩ := descends_applyAll hconf fun t ht => hkeep t (hsub.subset ht)
  rw [← hmade.view_eq hrun] at hlast
  exact ⟨content', hlast, hdescends.mono hsub.subset⟩

theorem sampleCalls_delete_nothing (t : TunnelName) :
    .delete t ∉ Pool.changesOf Caller.edits Caller.torn sampleCalls := by
  have hrefused : (sampleCaller 1000 [("cmd", .str "delete_tunnel"), ("name", .str "wg0")]).edits = [] := rfl
  have hchanges : Pool.changesOf Caller.edits Caller.torn sampleCalls =
      addEdits (addRequest plainAddress) ++ ([] ++ ([] ++ (tornOf "create_tunnel" secondTunnel 11 ++
        createEdits secondTunnel ++ []))) := by
    rw [← hrefused]
    rfl
  intro ht
  simp only [hchanges, tornOf, addEdits, createEdits, List.nil_append, List.append_nil, List.mem_append,
    Option.mem_toList, Option.map_eq_some_iff] at ht
  rcases ht with ⟨r, -, hr⟩ | ⟨r, -, hr⟩ | ⟨r, -, hr⟩ <;> cases hr

theorem sample_conf_text_descends : (Transition.steps (step fun _ => "") sampleCalls sampleService).isSome ∧
    ∀ p', Transition.steps (step fun _ => "") sampleCalls sampleService = some p' →
      ∃ content', p'.shared.confs "wg0" = some content' ∧
        Descends "wg0" (Pool.changesOf Caller.edits Caller.torn sampleCalls) interfaceMark content' :=
  ⟨by decide +kernel, fun _ hrun =>
    conf_text_descends hrun sampleCalls_spare rfl rfl fun t ht => absurd ht (sampleCalls_delete_nothing t)⟩

end

end Helper.Service
