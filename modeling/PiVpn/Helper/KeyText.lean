import PiVpn.Helper.Requests
import PiVpn.Lib.Base64

/-! The key pattern against what it stands for: the texts of thirty-two bytes in base64. -/

namespace Helper
open Text Pattern Base64

theorem isKeyChar_lt {c : Char} (h : isKeyChar c = true) : c.toNat < 128 := by
  have hle : ∀ d : Char, c ≤ d → d.toNat < 128 → c.toNat < 128 := by
    intro d hcd hd
    exact lt_of_le_of_lt (show c.toNat ≤ d.toNat from hcd) hd
  simp only [isKeyChar, Bool.or_eq_true, Bool.and_eq_true, decide_eq_true_eq, beq_iff_eq] at h
  rcases h with (((h | h) | h) | rfl) | rfl
  · exact hle 'Z' h.2 (by decide)
  · exact hle 'z' h.2 (by decide)
  · exact hle '9' h.2 (by decide)
  · decide
  · decide

theorem isKeyChar_iff {c : Char} : isKeyChar c = true ↔ IsLetter c := by
  constructor
  · intro h
    have hall : ∀ n < 128, isKeyChar (Char.ofNat n) = true → ∃ k < 64, Char.ofNat n = letter k := by decide +kernel
    have hc := hall c.toNat (isKeyChar_lt h)
    rw [Char.ofNat_toNat] at hc
    exact hc h
  · rintro ⟨n, hn, rfl⟩
    have hall : ∀ n < 64, isKeyChar (letter n) = true := by decide +kernel
    exact hall n hn

/-- The sixteen letters before the pad are the ones whose last two bits are zero. -/
theorem isKeyLast_iff {c : Char} : isKeyLast c = true ↔ IsShortLetter c := by
  have hlist : ['A', 'E', 'I', 'M', 'Q', 'U', 'Y', 'c', 'g', 'k', 'o', 's', 'w', '0', '4', '8'] =
      (List.range 16).map fun n => letter (4 * n) := by decide
  rw [isKeyLast, hlist, List.contains_eq_mem, decide_eq_true_eq, List.mem_map]
  simp only [IsShortLetter, List.mem_range, eq_comm]

/-- The base64 text of some key. -/
def IsKeyText (t : Text) : Prop := ∃ bs : List Byte, bs.length = 32 ∧ t = encode bs

theorem fullKey_iff {t : Text} : FullKey t ↔ IsKeyText t := by
  rw [IsKeyText, show 32 = 3 * 10 + 2 from rfl, encode_iff_twoLeft]
  constructor
  · rintro ⟨body, last, rfl, hlen, hbody, hlast⟩
    exact ⟨body, last, rfl, hlen, fun c hc => isKeyChar_iff.mp (hbody c hc), isKeyLast_iff.mp hlast⟩
  · rintro ⟨body, last, rfl, hlen, hbody, hlast⟩
    exact ⟨body, last, rfl, hlen, fun c hc => isKeyChar_iff.mpr (hbody c hc), isKeyLast_iff.mpr hlast⟩

/-- `_validate_wg_key` returns. -/
def Accepts (s field : String) : Prop := ∃ k, validateWgKey (.str s) field = .ok k

theorem accepts_iff {s field : String} :
    Accepts s field ↔ IsKeyText s.toList ∨ ∃ k, IsKeyText k ∧ s.toList = k ++ ['\n'] := by
  have hmatch : Accepts s field ↔ matchesAt wgKeyPattern s.toList = true := by
    rw [Accepts, validateWgKey]
    split
    · next h => exact ⟨fun _ => h, fun _ => ⟨_, rfl⟩⟩
    · next h =>
      refine iff_of_false ?_ h
      rintro ⟨k, hk⟩
      cases hk
  simp only [hmatch, wgKeyPattern_iff, fullKey_iff]

theorem newline_not_mem_keyText {t : Text} (h : IsKeyText t) : '\n' ∉ t :=
  (fullKey_iff.mpr h).not_mem (by decide) (by decide)

/-- The validator accepts exactly the base64 texts of thirty-two bytes, the text with one newline
after it apart. -/
theorem accepts_key_text_iff (s field : String) :
    (Accepts s field ↔ IsKeyText s.toList) ↔ ¬ ∃ k, IsKeyText k ∧ s.toList = k ++ ['\n'] := by
  rw [accepts_iff]
  constructor
  · rintro h ⟨k, hk, hs⟩
    have htext := h.mp (.inr ⟨k, hk, hs⟩)
    exact newline_not_mem_keyText htext (by simp [hs])
  · intro h
    exact ⟨fun hs => hs.resolve_right h, .inl⟩

/-- A text with a newline after the key passes, though it is no key's text. -/
theorem key_with_newline_accepted :
    Accepts "AAAAAAAAAAAAAAAAAAAAAAAAAAAAAAAAAAAAAAAAAAA=\n" "public_key" ∧
      ¬ IsKeyText "AAAAAAAAAAAAAAAAAAAAAAAAAAAAAAAAAAAAAAAAAAA=\n".toList := by
  have hzero : encode (List.replicate 32 0) = "AAAAAAAAAAAAAAAAAAAAAAAAAAAAAAAAAAAAAAAAAAA=".toList := by
    decide +kernel
  refine ⟨accepts_iff.mpr (.inr ⟨encode (List.replicate 32 0), ⟨_, rfl, rfl⟩, ?_⟩), fun h => ?_⟩
  · rw [hzero]
    decide
  · exact newline_not_mem_keyText h (by decide)

end Helper
