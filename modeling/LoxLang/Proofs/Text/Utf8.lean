import LoxLang.Text.Utf8

/-!
# Encoded texts

A text that is written as UTF-8 is read back as it was (`Utf8.decode_toUTF8`): of its bytes, those of each
character are one stretch (`Utf8.piece_encode`).
-/

namespace LoxLang.Text.Utf8

/-- The bytes of a byte array from an index on, behind those collected before. -/
theorem toList_loop (bytes : ByteArray) (i : Nat) (before : List UInt8) :
    ByteArray.toList.loop bytes i before = before.reverse ++ bytes.data.toList.drop i := by
  fun_induction ByteArray.toList.loop bytes i before with
  | case1 i before hlt ih =>
    have hget : bytes.get! i = bytes.data.toList[i] := getElem!_pos bytes.data i hlt
    rw [ih, List.reverse_cons, List.append_assoc, List.drop_eq_getElem_cons hlt, hget,
      List.singleton_append]
  | case2 i before hle =>
    rw [List.drop_eq_nil_of_le (Nat.le_of_not_lt hle), List.append_nil]

theorem toList_eq (bytes : ByteArray) : bytes.toList = bytes.data.toList := toList_loop bytes 0 []

/-! ### One character -/

variable {rest : List UInt8}

theorem toNat_ofNat {n : Nat} (h : n < 0x100) : (UInt8.ofNat n).toNat = n := Nat.mod_eq_of_lt h

theorem continue?_succ {left seen code low high n : Nat} (hn : n < 0x100) (hlow : low ≤ n)
    (hhigh : n ≤ high) :
    continue? (left + 1) seen code low high (UInt8.ofNat n :: rest) =
      continue? left (seen + 1) (code * 64 + (n - 0x80)) 0x80 0xBF rest := by
  simp [continue?, toNat_ofNat hn, hlow, hhigh]

/-- A first byte with a promise is followed by what it promises. -/
theorem piece_of_promise {n left code low high : Nat} (hn : n < 0x100) (hascii : 0x80 ≤ n)
    (h : promise n = some (left, code, low, high)) :
    piece (UInt8.ofNat n) rest = continue? left 1 code low high rest := by
  rw [piece, toNat_ofNat hn, if_neg (Nat.not_lt.2 hascii), h]

theorem promise_two {k : Nat} (hlow : 2 ≤ k) (hhigh : k < 32) :
    promise (k + 0xC0) = some (1, k, 0x80, 0xBF) := by
  rw [promise, if_neg (by omega), if_pos (by omega), Nat.add_sub_cancel]

theorem promise_three {k : Nat} (h : k < 16) :
    promise (k + 0xE0) =
      some (2, k, if k = 0 then 0xA0 else 0x80, if k = 13 then 0x9F else 0xBF) := by
  rw [promise, if_neg (by omega), if_neg (by omega), if_pos (by omega), Nat.add_sub_cancel]
  simp

theorem promise_four {k : Nat} (h : k < 5) :
    promise (k + 0xF0) =
      some (3, k, if k = 0 then 0x90 else 0x80, if k = 4 then 0x8F else 0xBF) := by
  rw [promise, if_neg (by omega), if_neg (by omega), if_neg (by omega), if_pos (by omega),
    Nat.add_sub_cancel]
  simp

/-- The bytes of a character are one stretch, whatever follows them. -/
theorem piece_encode (c : Char) (rest : List UInt8) :
    ∃ b bs, String.utf8EncodeChar c = b :: bs ∧ piece b (bs ++ rest) = .char c := by
  have hvalid : c.val.toNat < 0xD800 ∨ 0xDFFF < c.val.toNat ∧ c.val.toNat < 0x110000 := c.valid
  have hchar : Char.ofNat c.val.toNat = c := Char.ofNat_toNat c
  rw [String.utf8EncodeChar]
  generalize c.val.toNat = n at hvalid hchar ⊢
  subst hchar
  have hsame {k : Nat} (h : k = n) : Piece.char (Char.ofNat k) = .char (Char.ofNat n) := by rw [h]
  -- one case for each number of bytes
  show ∃ b bs, (if n ≤ 0x7F then _ else if n ≤ 0x7FF then _ else if n ≤ 0xFFFF then _ else _) =
    b :: bs ∧ _
  split
  · refine ⟨_, _, rfl, ?_⟩
    rw [piece, toNat_ofNat (by omega), if_pos (by omega)]
  split
  · refine ⟨_, _, rfl, ?_⟩
    rw [piece_of_promise (by omega) (by omega) (promise_two (by omega) (by omega)),
      List.cons_append, continue?_succ (by omega) (by omega) (by omega), continue?]
    exact hsame (by omega)
  split
  · refine ⟨_, _, rfl, ?_⟩
    rw [piece_of_promise (by omega) (by omega) (promise_three (by omega)),
      List.cons_append, List.cons_append,
      continue?_succ (by omega) (by split <;> omega) (by split <;> omega),
      continue?_succ (by omega) (by omega) (by omega), continue?]
    exact hsame (by omega)
  · refine ⟨_, _, rfl, ?_⟩
    rw [piece_of_promise (by omega) (by omega) (promise_four (by omega)),
      List.cons_append, List.cons_append, List.cons_append,
      continue?_succ (by omega) (by split <;> omega) (by split <;> omega),
      continue?_succ (by omega) (by omega) (by omega),
      continue?_succ (by omega) (by omega) (by omega), continue?]
    exact hsame (by omega)

/-! ### Texts -/

theorem piecesFrom_encode_append (c : Char) (rest : List UInt8) :
    piecesFrom 0 (String.utf8EncodeChar c ++ rest) = .char c :: piecesFrom 0 rest := by
  obtain ⟨b, bs, hencode, hpiece⟩ := piece_encode c rest
  have hlength : bs.length = c.utf8Size - 1 := by
    rw [← String.length_utf8EncodeChar c, hencode, List.length_cons, Nat.add_sub_cancel]
  rw [hencode, List.cons_append, piecesFrom, hpiece, piecesFrom_skip, Piece.size, ← hlength,
    List.drop_left]

theorem pieces_encode (cs : List Char) :
    pieces (cs.flatMap String.utf8EncodeChar) = cs.map .char := by
  induction cs with
  | nil => rfl
  | cons c cs ih =>
    rw [List.flatMap_cons, pieces, piecesFrom_encode_append, ← pieces, ih, List.map_cons]

theorem collect_chars (cs before : List Char) (index : Nat) :
    collect index before (cs.map .char) = .ok (before.reverse ++ cs) := by
  induction cs generalizing before index with
  | nil => rw [List.map_nil, collect, List.append_nil]
  | cons c cs ih => rw [List.map_cons, collect, ih, List.reverse_cons, List.append_assoc]; rfl

/-- An encoded text is read as it was. -/
theorem decode_toUTF8 (text : String) : decode text.toUTF8 = .ok text := by
  have hbytes : text.toUTF8.toList = text.toList.flatMap String.utf8EncodeChar := by
    rw [toList_eq, String.toUTF8, ← String.utf8Encode_toList, List.utf8Encode,
      List.data_toByteArray]
  rw [decode, hbytes, pieces_encode, collect_chars]
  exact congrArg Except.ok String.ofList_toList

theorem decodeLossy_empty : decodeLossy .empty = "" := by
  rw [decodeLossy, ByteArray.toList_empty]
  rfl

end LoxLang.Text.Utf8
