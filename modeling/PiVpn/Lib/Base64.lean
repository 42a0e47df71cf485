import PiVpn.Lib.Text

/-! Base64 with padding: three bytes a group, four letters for each, and what the texts
look like that end in a group of two bytes. -/

namespace Base64

def alphabet : Text :=
  ['A', 'B', 'C', 'D', 'E', 'F', 'G', 'H', 'I', 'J', 'K', 'L', 'M', 'N', 'O', 'P', 'Q', 'R', 'S', 'T', 'U',
    'V', 'W', 'X', 'Y', 'Z', 'a', 'b', 'c', 'd', 'e', 'f', 'g', 'h', 'i', 'j', 'k', 'l', 'm', 'n', 'o', 'p',
    'q', 'r', 's', 't', 'u', 'v', 'w', 'x', 'y', 'z', '0', '1', '2', '3', '4', '5', '6', '7', '8', '9', '+', '/']

def letter (n : Nat) : Char := alphabet.getD n 'A'

abbrev Byte := BitVec 8

def group (a b c : Byte) : Text :=
  [letter (a.toNat / 4), letter (a.toNat % 4 * 16 + b.toNat / 16), letter (b.toNat % 16 * 4 + c.toNat / 64),
    letter (c.toNat % 64)]

def encode : List Byte → Text
  | a :: b :: c :: rest => group a b c ++ encode rest
  | [a, b] => [letter (a.toNat / 4), letter (a.toNat % 4 * 16 + b.toNat / 16), letter (b.toNat % 16 * 4), '=']
  | [a] => [letter (a.toNat / 4), letter (a.toNat % 4 * 16), '=', '=']
  | [] => []

def IsLetter (c : Char) : Prop := ∃ n < 64, c = letter n

/-- A letter whose last two bits are zero: what stands before a single pad. -/
def IsShortLetter (c : Char) : Prop := ∃ n < 16, c = letter (4 * n)

theorem group_letters (a b c : Byte) : ∀ x ∈ group a b c, IsLetter x := by
  intro x hx
  simp only [group, List.mem_cons, List.not_mem_nil, or_false] at hx
  rcases hx with rfl | rfl | rfl | rfl
  · exact ⟨_, by omega, rfl⟩
  · exact ⟨_, by omega, rfl⟩
  · exact ⟨_, by omega, rfl⟩
  · exact ⟨_, by omega, rfl⟩

theorem exists_group {w x y z : Char} (hw : IsLetter w) (hx : IsLetter x) (hy : IsLetter y) (hz : IsLetter z) :
    ∃ a b c, [w, x, y, z] = group a b c := by
  obtain ⟨i, hi, rfl⟩ := hw
  obtain ⟨j, hj, rfl⟩ := hx
  obtain ⟨k, hk, rfl⟩ := hy
  obtain ⟨l, hl, rfl⟩ := hz
  refine ⟨BitVec.ofNat 8 (i * 4 + j / 16), BitVec.ofNat 8 (j % 16 * 16 + k / 4),
    BitVec.ofNat 8 (k % 4 * 64 + l), ?_⟩
  have h₁ : (i * 4 + j / 16) % 256 / 4 = i := by omega
  have h₂ : (i * 4 + j / 16) % 256 % 4 * 16 + (j % 16 * 16 + k / 4) % 256 / 16 = j := by omega
  have h₃ : (j % 16 * 16 + k / 4) % 256 % 16 * 4 + (k % 4 * 64 + l) % 256 / 64 = k := by omega
  have h₄ : (k % 4 * 64 + l) % 256 % 64 = l := by omega
  simp only [group, BitVec.toNat_ofNat, Nat.reducePow, h₁, h₂, h₃, h₄]

theorem exists_tail {w x y : Char} (hw : IsLetter w) (hx : IsLetter x) (hy : IsShortLetter y) :
    ∃ a b, [w, x, y, '='] = encode [a, b] := by
  obtain ⟨i, hi, rfl⟩ := hw
  obtain ⟨j, hj, rfl⟩ := hx
  obtain ⟨k, hk, rfl⟩ := hy
  refine ⟨BitVec.ofNat 8 (i * 4 + j / 16), BitVec.ofNat 8 (j % 16 * 16 + k), ?_⟩
  have h₁ : (i * 4 + j / 16) % 256 / 4 = i := by omega
  have h₂ : (i * 4 + j / 16) % 256 % 4 * 16 + (j % 16 * 16 + k) % 256 / 16 = j := by omega
  have h₃ : (j % 16 * 16 + k) % 256 % 16 * 4 = 4 * k := by omega
  simp only [encode, BitVec.toNat_ofNat, Nat.reducePow, h₁, h₂, h₃]

/-- What `3 * n + 2` bytes are written as: letters, one that is short, and a pad. -/
def TwoLeft (n : Nat) (t : Text) : Prop := ∃ body last, t = body ++ [last, '='] ∧ body.length = 4 * n + 2 ∧
  (∀ c ∈ body, IsLetter c) ∧ IsShortLetter last

theorem twoLeft_encode {n : Nat} {bs : List Byte} (h : bs.length = 3 * n + 2) : TwoLeft n (encode bs) := by
  induction n generalizing bs with
  | zero =>
    obtain ⟨a, b, rfl⟩ := List.length_eq_two.mp h
    refine ⟨[letter (a.toNat / 4), letter (a.toNat % 4 * 16 + b.toNat / 16)], letter (b.toNat % 16 * 4), rfl,
      rfl, ?_, b.toNat % 16, by omega, by rw [Nat.mul_comm]⟩
    intro c hc
    simp only [List.mem_cons, List.not_mem_nil, or_false] at hc
    rcases hc with rfl | rfl
    · exact ⟨_, by omega, rfl⟩
    · exact ⟨_, by omega, rfl⟩
  | succ n ih =>
    obtain ⟨a, b, c, rest, rfl⟩ : ∃ a b c rest, bs = a :: b :: c :: rest := by
      match bs, h with
      | a :: b :: c :: rest, _ => exact ⟨a, b, c, rest, rfl⟩
    obtain ⟨body, last, hrest, hlen, hbody, hlast⟩ := @ih rest (by simpa [Nat.mul_succ] using h)
    refine ⟨group a b c ++ body, last, ?_, by simp [group, hlen]; omega, ?_, hlast⟩
    · rw [encode, hrest, List.append_assoc]
    · intro x hx
      rcases List.mem_append.mp hx with hx | hx
      · exact group_letters a b c x hx
      · exact hbody x hx

theorem exists_encode {n : Nat} {t : Text} (h : TwoLeft n t) : ∃ bs, bs.length = 3 * n + 2 ∧ t = encode bs := by
  obtain ⟨body, last, rfl, hlen, hbody, hlast⟩ := h
  induction n generalizing body with
  | zero =>
    obtain ⟨w, x, rfl⟩ := List.length_eq_two.mp hlen
    obtain ⟨a, b, hab⟩ := exists_tail (hbody w (by simp)) (hbody x (by simp)) hlast
    exact ⟨[a, b], rfl, hab⟩
  | succ n ih =>
    obtain ⟨w, x, y, z, rest, rfl⟩ : ∃ w x y z rest, body = w :: x :: y :: z :: rest := by
      match body, hlen with
      | w :: x :: y :: z :: rest, _ => exact ⟨w, x, y, z, rest, rfl⟩
    obtain ⟨bs, hbs, hrest⟩ := ih rest (by simpa [Nat.mul_succ] using hlen)
      fun c hc => hbody c (by simp [hc])
    obtain ⟨a, b, c, habc⟩ := exists_group (hbody w (by simp)) (hbody x (by simp)) (hbody y (by simp))
      (hbody z (by simp))
    refine ⟨a :: b :: c :: bs, by simp [hbs]; omega, ?_⟩
    rw [encode, ← hrest, ← habc]
    rfl

/-- The encodings of `3 * n + 2` bytes are the texts of that shape. -/
theorem encode_iff_twoLeft {n : Nat} {t : Text} : (∃ bs, bs.length = 3 * n + 2 ∧ t = encode bs) ↔ TwoLeft n t := by
  constructor
  · rintro ⟨bs, hbs, rfl⟩
    exact twoLeft_encode hbs
  · exact exists_encode

end Base64
