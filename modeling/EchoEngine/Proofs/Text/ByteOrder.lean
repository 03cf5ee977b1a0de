import Mathlib.Data.String.Basic

/-!
# Byte order

Texts are compared by their characters.  This is the order of their bytes as well (`lt_iff_utf8_lt`): the first byte
of a character tells how many follow, more of them for greater characters, and the bits are written from the top.
-/

namespace EchoEngine.Text

/-- The bytes of a text. -/
def utf8 (s : String) : List UInt8 :=
  s.toUTF8.data.toList

theorem utf8_eq (s : String) : utf8 s = s.toList.flatMap String.utf8EncodeChar := by
  rw [utf8, String.toUTF8_eq_toByteArray, ← String.utf8Encode_toList, List.utf8Encode, List.toList_data_toByteArray]

/-! ### Characters -/

/-- Numbers are compared by their digits, here of six bits, from the top. -/
private theorem digits_lt {m n : Nat} (h : m < n) :
    m / 262144 < n / 262144 ∨ m / 262144 = n / 262144 ∧
      (m / 4096 % 64 < n / 4096 % 64 ∨ m / 4096 % 64 = n / 4096 % 64 ∧
        (m / 64 % 64 < n / 64 % 64 ∨ m / 64 % 64 = n / 64 % 64 ∧ m % 64 < n % 64)) := by
  have hsplit {a b : Nat} (hab : a < b) : a / 64 < b / 64 ∨ a / 64 = b / 64 ∧ a % 64 < b % 64 := by omega
  have hhigh (a : Nat) : a / 262144 = a / 64 / 64 / 64 := by omega
  have hmiddle (a : Nat) : a / 4096 = a / 64 / 64 := by omega
  rw [hhigh, hhigh, hmiddle, hmiddle]
  rcases hsplit h with hlt | ⟨heq, hlast⟩
  · rcases hsplit hlt with hlt | ⟨heq, hthird⟩
    · rcases hsplit hlt with hlt | ⟨heq, hsecond⟩
      · exact .inl hlt
      · exact .inr ⟨heq, .inl hsecond⟩
    · rw [heq]
      exact .inr ⟨rfl, .inr ⟨rfl, .inl hthird⟩⟩
  · rw [heq]
    exact .inr ⟨rfl, .inr ⟨rfl, .inr ⟨rfl, hlast⟩⟩⟩

/-- The bytes of two characters differ, whatever follows. -/
theorem utf8EncodeChar_append_lt {c d : Char} (h : c < d) (u v : List UInt8) :
    String.utf8EncodeChar c ++ u < String.utf8EncodeChar d ++ v := by
  have hlt : c.val.toNat < d.val.toNat := h
  have hd : d.val.toNat < 0x110000 := by
    have hvalid := d.valid
    rw [UInt32.isValidChar, Nat.isValidChar] at hvalid
    omega
  simp only [String.utf8EncodeChar]
  generalize c.val.toNat = m at hlt
  generalize d.val.toNat = n at hlt hd
  rcases Nat.lt_or_ge 0xFFFF m with hfour | hless
  · have hlead {a : Nat} (ha : a < 0x110000) : (a / 262144 % 8 + 240) % 2 ^ 8 = a / 262144 + 240 := by omega
    have hrest (a : Nat) : (a % 64 + 128) % 2 ^ 8 = a % 64 + 128 := by omega
    have hm : ¬m ≤ 0x7F ∧ ¬m ≤ 0x7FF ∧ ¬m ≤ 0xFFFF := by omega
    have hn : ¬n ≤ 0x7F ∧ ¬n ≤ 0x7FF ∧ ¬n ≤ 0xFFFF := by omega
    simp only [hm, hn, if_false, List.cons_append, List.nil_append, List.cons_lt_cons_iff, UInt8.lt_iff_toNat_lt,
      ← UInt8.toNat_inj, UInt8.toNat_ofNat', hlead hd, hlead (hlt.trans hd), hrest]
    have hdigits := digits_lt hlt
    omega
  · split_ifs
    all_goals
      simp only [List.cons_append, List.nil_append, List.cons_lt_cons_iff, UInt8.lt_iff_toNat_lt, ← UInt8.toNat_inj,
        UInt8.toNat_ofNat']
      omega

theorem utf8EncodeChar_ne_nil (c : Char) : String.utf8EncodeChar c ≠ [] := by
  rw [String.utf8EncodeChar]
  split_ifs
  all_goals exact List.cons_ne_nil _ _

/-! ### Texts -/

theorem flatMap_utf8EncodeChar_lt {cs ds : List Char} (h : cs < ds) :
    cs.flatMap String.utf8EncodeChar < ds.flatMap String.utf8EncodeChar := by
  induction h with
  | nil =>
    rename_i d ds
    rw [List.flatMap_nil, List.flatMap_cons]
    obtain ⟨byte, bytes, hbytes⟩ := List.exists_cons_of_ne_nil (utf8EncodeChar_ne_nil d)
    rw [hbytes]
    exact .nil
  | rel h =>
    rw [List.flatMap_cons, List.flatMap_cons]
    exact utf8EncodeChar_append_lt h _ _
  | cons _ ih =>
    rw [List.flatMap_cons, List.flatMap_cons]
    exact List.Lex.append_left _ ih _

theorem lt_iff_utf8_lt {a b : String} : a < b ↔ utf8 a < utf8 b := by
  have hmono {a b : String} (h : a < b) : utf8 a < utf8 b := by
    rw [utf8_eq, utf8_eq]
    exact flatMap_utf8EncodeChar_lt (String.lt_iff_toList_lt.1 h)
  refine ⟨hmono, fun h => ?_⟩
  rcases lt_trichotomy a b with hlt | rfl | hgt
  · exact hlt
  · exact absurd h (List.lt_irrefl _)
  · exact absurd h (List.lt_asymm (hmono hgt))

end EchoEngine.Text
