import PiVpn.Helper.ConfStore

/-! Taking a conf text apart and putting it together again: the parts a text can have, the
text in its normal form, and what is lost of the parts on the way, which is no more than
the newlines they end in. -/

namespace Helper
open Text

/-- A header and sections, none of which holds the start of another section. -/
structure ConfParts where
  header : Text
  blocks : List Text
  headerUncut : Blocks.Uncut '\n' peerMark header
  blocksUncut : ∀ b ∈ blocks, peerMark <+: b ∧ Blocks.Uncut '\n' peerMark b

/-- `_split_conf`, with what its parts are known to be. -/
def partsOf (content : Text) : ConfParts where
  header := (splitConf content).1
  blocks := (splitConf content).2
  headerUncut := Blocks.fst_uncut _
  blocksUncut _ hb := ⟨Blocks.mark_prefix_of_mem newline_not_mem_mark hb, Blocks.mem_uncut hb⟩

/-- `_rebuild_conf` applied to `_split_conf(content)`. -/
def normal (content : Text) : Text := rebuildConf (splitConf content).1 (splitConf content).2

/-- As many sections, and the same parts up to the newlines at their ends. -/
def SameParts (p q : Text × List Text) : Prop :=
  p.2.length = q.2.length ∧ rstripNl p.1 = rstripNl q.1 ∧ p.2.map rstripNl = q.2.map rstripNl

-- an empty header, blank lines before and after a section, and no newline at the end
example : normal "\n\n[Peer]\na\n\n\n[Peer]\nb".toList = "\n\n[Peer]\na\n\n[Peer]\nb\n".toList := by decide

theorem SameParts.symm {p q : Text × List Text} (h : SameParts p q) : SameParts q p :=
  ⟨h.1.symm, h.2.1.symm, h.2.2.symm⟩

theorem SameParts.trans {p q r : Text × List Text} (h : SameParts p q) (h' : SameParts q r) : SameParts p r :=
  ⟨h.1.trans h'.1, h.2.1.trans h'.2.1, h.2.2.trans h'.2.2⟩

theorem rebuildConf_congr {p q : Text × List Text} (h : SameParts p q) :
    rebuildConf p.1 p.2 = rebuildConf q.1 q.2 := by
  have hblocks : ∀ bs : List Text, bs.map rebuildBlock = (bs.map rstripNl).map fun t => '\n' :: t ++ ['\n'] := by
    intro bs
    rw [List.map_map]
    rfl
  rw [rebuildConf, rebuildConf, hblocks, hblocks, h.2.1, h.2.2]

/-- Each part comes back with exactly one newline at its end. -/
theorem ConfParts.split_rebuild (p : ConfParts) :
    splitConf (rebuildConf p.header p.blocks) = (endNl p.header, p.blocks.map endNl) :=
  splitConf_rebuildConf p.headerUncut p.blocksUncut

theorem ConfParts.sameParts (p : ConfParts) :
    SameParts (splitConf (rebuildConf p.header p.blocks)) (p.header, p.blocks) := by
  have hends : rstripNl ∘ endNl = rstripNl := by
    funext t
    exact rstripNl_endNl t
  rw [p.split_rebuild]
  refine ⟨List.length_map _, rstripNl_endNl _, ?_⟩
  rw [List.map_map, hends]

theorem normal_sameParts (content : Text) : SameParts (splitConf (normal content)) (splitConf content) :=
  (partsOf content).sameParts

/-- Two texts have one normal form exactly when their parts are the same. -/
theorem normal_eq_iff {content content' : Text} :
    normal content = normal content' ↔ SameParts (splitConf content) (splitConf content') := by
  constructor
  · intro h
    have hback := (normal_sameParts content).symm
    rw [h] at hback
    exact hback.trans (normal_sameParts content')
  · exact rebuildConf_congr

/-- The normal form is its own normal form, its parts are those of the text, and parts that
can be those of a text come back from the text they make. -/
theorem parts_come_back :
    (∀ content : Text, normal (normal content) = normal content ∧
      SameParts (splitConf (normal content)) (splitConf content)) ∧
    ∀ p : ConfParts, SameParts (splitConf (rebuildConf p.header p.blocks)) (p.header, p.blocks) :=
  ⟨fun content => ⟨normal_eq_iff.mpr (normal_sameParts content), normal_sameParts content⟩,
    ConfParts.sameParts⟩

end Helper
