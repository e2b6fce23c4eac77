import Ragx.DocHash

/-!
# The encodings of a text document

The parser tries UTF-8, then GB18030, and reads Latin-1 otherwise. Whichever it takes, the
ASCII blanks of a file are the ASCII blanks of its text and cut both at the same place.
-/
namespace Ragx

/-- The character with the number of the byte. -/
def byteChar (b : UInt8) : Char := Char.ofNat b.toNat

/-- `data.decode("utf-8")`. -/
def decodeUtf8 (data : List UInt8) : Option (List Char) :=
  data.toByteArray.utf8Decode?.map (·.toList)

def utf8Bom : List UInt8 := [0xEF, 0xBB, 0xBF]

/-- `data.decode("utf-8-sig")`: a byte order mark is skipped. -/
def decodeUtf8Sig (data : List UInt8) : Option (List Char) :=
  decodeUtf8 (if utf8Bom.isPrefixOf data then data.drop utf8Bom.length else data)

/-- The tables of GB18030 for codes of two and of four bytes. Only ASCII bytes stand for ASCII
characters, and the second byte of a pair is from `0x40` on. -/
structure Gb18030 where
  pair : UInt8 → UInt8 → Option Char
  quad : UInt8 → UInt8 → UInt8 → UInt8 → Option Char
  le_of_pair : ∀ {a b ch}, pair a b = some ch → 0x40 ≤ b
  wide_of_pair : ∀ {a b ch}, pair a b = some ch → 0x80 ≤ ch.toNat
  wide_of_quad : ∀ {a b c d ch}, quad a b c d = some ch → 0x80 ≤ ch.toNat

/-- `data.decode("gb18030")`. -/
def Gb18030.decode (gb : Gb18030) : List UInt8 → Option (List Char)
  | [] => some []
  | a :: rest =>
    if a < 0x80 then (gb.decode rest).map (byteChar a :: ·)
    else
      match rest with
      | [] => none
      | b :: rest =>
        if 0x30 ≤ b ∧ b ≤ 0x39 then
          match rest with
          | c :: d :: rest =>
            if (0x81 ≤ a ∧ a ≤ 0xFE) ∧ (0x81 ≤ c ∧ c ≤ 0xFE) ∧ 0x30 ≤ d ∧ d ≤ 0x39 then
              (gb.quad a b c d).bind fun ch => (gb.decode rest).map (ch :: ·)
            else none
          | _ => none
        else (gb.pair a b).bind fun ch => (gb.decode rest).map (ch :: ·)

/-- `data.decode("latin-1")`, which never fails. -/
def decodeLatin1 (data : List UInt8) : List Char := data.map byteChar

/-- `_decode`: the first encoding of the list that reads the data. -/
def decodeContent (gb : Gb18030) : DocContent → List Char
  | .text s => s.toList
  | .bytes data =>
    (((decodeUtf8 data).or (decodeUtf8Sig data)).or (gb.decode data)).getD (decodeLatin1 data)

/-! ## Bytes and characters -/

theorem toNat_byteChar (b : UInt8) : (byteChar b).toNat = b.toNat := by
  have hb := b.toNat_lt
  have hvalid : b.toNat.isValidChar := Or.inl (by omega)
  rw [byteChar, Char.ofNat, dif_pos hvalid]
  rfl

theorem byteChar_inj {a b : UInt8} : byteChar a = byteChar b ↔ a = b := by
  constructor
  · intro h
    have htoNat := congrArg Char.toNat h
    rw [toNat_byteChar, toNat_byteChar] at htoNat
    exact UInt8.toNat_inj.mp htoNat
  · exact congrArg byteChar

theorem not_ofNat_lt {n : ℕ} (hle : 0x80 ≤ n) (hlt : n < 0x100) : ¬UInt8.ofNat n < 0x80 := by
  rw [UInt8.lt_iff_toNat_lt, UInt8.toNat_ofNat_of_lt' hlt]
  exact not_lt.mpr hle

/-- A character is one ASCII byte or none of its bytes is one. -/
theorem utf8EncodeChar_ascii_or (c : Char) :
    (∃ b < 0x80, String.utf8EncodeChar c = [b] ∧ byteChar b = c) ∨
      ∀ b ∈ String.utf8EncodeChar c, ¬b < 0x80 := by
  by_cases hc : c.val.toNat ≤ 0x7F
  · have hsize : c.toNat < UInt8.size := lt_of_le_of_lt hc (by decide)
    refine Or.inl ⟨UInt8.ofNat c.toNat, ?_, ?_, ?_⟩
    · rw [UInt8.lt_iff_toNat_lt, UInt8.toNat_ofNat_of_lt' hsize]
      exact Nat.lt_succ_of_le hc
    · rw [String.utf8EncodeChar]
      exact if_pos hc
    · rw [byteChar, UInt8.toNat_ofNat_of_lt' hsize, Char.ofNat_toNat]
  · refine Or.inr fun b hb => ?_
    rw [String.utf8EncodeChar, if_neg hc] at hb
    split_ifs at hb <;> simp only [List.mem_cons, List.not_mem_nil, or_false] at hb
    · rcases hb with rfl | rfl <;> exact not_ofNat_lt (by omega) (by omega)
    · rcases hb with rfl | rfl | rfl <;> exact not_ofNat_lt (by omega) (by omega)
    · rcases hb with rfl | rfl | rfl | rfl <;> exact not_ofNat_lt (by omega) (by omega)

theorem utf8EncodeChar_byteChar {b : UInt8} (h : b < 0x80) :
    String.utf8EncodeChar (byteChar b) = [b] := by
  have hle : (byteChar b).toNat ≤ 0x7F := by
    rw [toNat_byteChar]
    exact Nat.le_of_lt_succ (UInt8.lt_iff_toNat_lt.mp h)
  have hone : String.utf8EncodeChar (byteChar b) = [UInt8.ofNat (byteChar b).toNat] := by
    rw [String.utf8EncodeChar]
    exact if_pos hle
  rw [hone, toNat_byteChar, UInt8.ofNat_toNat]

theorem encodeUtf8_cons (c : Char) (text : List Char) :
    encodeUtf8 (c :: text) = String.utf8EncodeChar c ++ encodeUtf8 text := rfl

theorem encodeUtf8_append (front back : List Char) :
    encodeUtf8 (front ++ back) = encodeUtf8 front ++ encodeUtf8 back := List.flatMap_append

/-- Encoded texts are cut at ASCII bytes only between characters. -/
theorem exists_of_encodeUtf8_eq {text : List Char} {front back : List UInt8} {b : UInt8}
    (hb : b < 0x80) (h : encodeUtf8 text = front ++ b :: back) :
    ∃ cs ds, text = cs ++ byteChar b :: ds ∧ encodeUtf8 cs = front ∧ encodeUtf8 ds = back := by
  induction text generalizing front with
  | nil => exact absurd h.symm (by simp [encodeUtf8])
  | cons c text ih =>
    have hbehind : ∀ rest, front = String.utf8EncodeChar c ++ rest →
        encodeUtf8 text = rest ++ b :: back →
        ∃ cs ds, c :: text = cs ++ byteChar b :: ds ∧ encodeUtf8 cs = front ∧
          encodeUtf8 ds = back := by
      intro rest hfront hrest
      obtain ⟨cs, ds, rfl, rfl, hds⟩ := ih hrest
      exact ⟨c :: cs, ds, rfl, hfront.symm, hds⟩
    rw [encodeUtf8_cons] at h
    rcases List.append_eq_append_iff.mp h with ⟨rest, hfront, hrest⟩ | ⟨rest, hchar, hrest⟩
    · exact hbehind rest hfront hrest
    · cases rest with
      | nil => exact hbehind [] (by simpa using hchar.symm) (by simpa using hrest.symm)
      | cons b' rest =>
        obtain ⟨rfl, rfl⟩ := List.cons.inj hrest
        rcases utf8EncodeChar_ascii_or c with ⟨a, _, hone, hbyte⟩ | hwide
        · rw [hone] at hchar
          obtain ⟨rfl, hsingle⟩ : front = [] ∧ [a] = b :: rest := by
            cases front with
            | nil => exact ⟨rfl, hchar⟩
            | cons x front => simp at hchar
          obtain ⟨rfl, rfl⟩ := List.cons.inj hsingle
          exact ⟨[], text, by rw [hbyte]; rfl, rfl, rfl⟩
        · exact absurd hb (hwide b (by rw [hchar]; simp))

theorem decodeUtf8_eq_some_iff {data : List UInt8} {text : List Char} :
    decodeUtf8 data = some text ↔ data = encodeUtf8 text := by
  have hencode : ∀ cs : List Char, (encodeUtf8 cs).toByteArray.utf8Decode? = some cs.toArray :=
    fun cs => List.utf8Decode?_utf8Encode
  constructor
  · intro h
    obtain ⟨chars, hchars, rfl⟩ := Option.map_eq_some_iff.mp h
    obtain ⟨cs, hcs⟩ := ByteArray.isSome_utf8Decode?_iff.mp (by rw [hchars]; rfl)
    have hdata : data = encodeUtf8 cs := by
      have hlists := congrArg (fun bytes => bytes.data.toList) hcs
      rwa [List.toList_data_toByteArray, List.utf8Encode, List.toList_data_toByteArray] at hlists
    rw [hdata, hencode cs] at hchars
    rw [hdata, ← Option.some.inj hchars]
  · rintro rfl
    rw [decodeUtf8, hencode text]
    rfl

/-- Skipping a byte order mark does not help data that is no UTF-8. -/
theorem decodeUtf8_or_sig (data : List UInt8) :
    (decodeUtf8 data).or (decodeUtf8Sig data) = decodeUtf8 data := by
  cases hplain : decodeUtf8 data with
  | some text => rfl
  | none =>
    rw [Option.none_or, decodeUtf8Sig]
    split_ifs with hbom
    · cases hskipped : decodeUtf8 (data.drop utf8Bom.length) with
      | none => rfl
      | some text =>
        obtain ⟨rest, rfl⟩ := List.isPrefixOf_iff_prefix.mp hbom
        rw [List.drop_left, decodeUtf8_eq_some_iff] at hskipped
        have hmarked : decodeUtf8 (utf8Bom ++ rest) = some ('\uFEFF' :: text) := by
          rw [decodeUtf8_eq_some_iff, encodeUtf8_cons, hskipped]
          rfl
        rw [hmarked] at hplain
        cases hplain
    · exact hplain

/-! ## Cutting at blanks -/

/-- ASCII blanks are whole characters wherever they stand, and newlines and carriage returns
come from nothing else. -/
structure CutsAtBlanks (decode : List UInt8 → Option (List Char)) : Prop where
  eq_nil_iff : ∀ {data}, decode data = some [] ↔ data = []
  cut : ∀ front {b} back, isBlankByte b = true →
    decode (front ++ b :: back) =
      (decode front).bind fun cs => (decode back).map fun ds => cs ++ byteChar b :: ds
  mem : ∀ {data text b}, decode data = some text → isBlankByte b = true → byteChar b ∈ text →
    b ∈ data

theorem lt_of_isBlankByte {b : UInt8} (h : isBlankByte b = true) : b < 0x30 := by
  simp only [isBlankByte, Bool.or_eq_true, beq_iff_eq, Bool.and_eq_true, decide_eq_true_eq,
    UInt8.le_iff_toNat_le] at h
  rw [UInt8.lt_iff_toNat_lt]
  rcases h with rfl | ⟨_, h⟩
  · decide
  · exact lt_of_le_of_lt h (by decide)

theorem ascii_of_isBlankByte {b : UInt8} (h : isBlankByte b = true) : b < 0x80 :=
  UInt8.lt_trans (lt_of_isBlankByte h) (by decide)

theorem cutsAtBlanks_decodeUtf8 : CutsAtBlanks decodeUtf8 where
  eq_nil_iff := by
    intro data
    rw [decodeUtf8_eq_some_iff]
    rfl
  cut := by
    intro front b back hb
    have hascii := ascii_of_isBlankByte hb
    refine Option.ext fun text => ?_
    simp only [Option.bind_eq_some_iff, Option.map_eq_some_iff, decodeUtf8_eq_some_iff]
    constructor
    · intro h
      obtain ⟨cs, ds, rfl, hcs, hds⟩ := exists_of_encodeUtf8_eq hascii h.symm
      exact ⟨cs, hcs.symm, ds, hds.symm, rfl⟩
    · rintro ⟨cs, rfl, ds, rfl, rfl⟩
      rw [encodeUtf8_append, encodeUtf8_cons, utf8EncodeChar_byteChar hascii]
      rfl
  mem := by
    intro data text b h hb hmem
    have hascii := ascii_of_isBlankByte hb
    rw [decodeUtf8_eq_some_iff.mp h]
    refine List.mem_flatMap.mpr ⟨byteChar b, hmem, ?_⟩
    rw [utf8EncodeChar_byteChar hascii]
    exact List.mem_singleton_self b

section Gb18030

variable (gb : Gb18030)

theorem Gb18030.decode_ascii {a : UInt8} (ha : a < 0x80) (rest : List UInt8) :
    gb.decode (a :: rest) = (gb.decode rest).map (byteChar a :: ·) := by
  rw [Gb18030.decode.eq_def]
  exact if_pos ha

theorem Gb18030.decode_pair {a b : UInt8} (ha : ¬a < 0x80) (hb : ¬(0x30 ≤ b ∧ b ≤ 0x39))
    (rest : List UInt8) :
    gb.decode (a :: b :: rest) =
      (gb.pair a b).bind fun ch => (gb.decode rest).map (ch :: ·) := by
  rw [Gb18030.decode.eq_def]
  refine (if_neg ha).trans ?_
  exact if_neg hb

theorem Gb18030.decode_quad {a b : UInt8} (ha : ¬a < 0x80) (hb : 0x30 ≤ b ∧ b ≤ 0x39)
    (c d : UInt8) (rest : List UInt8) :
    gb.decode (a :: b :: c :: d :: rest) =
      if (0x81 ≤ a ∧ a ≤ 0xFE) ∧ (0x81 ≤ c ∧ c ≤ 0xFE) ∧ 0x30 ≤ d ∧ d ≤ 0x39 then
        (gb.quad a b c d).bind fun ch => (gb.decode rest).map (ch :: ·)
      else none := by
  rw [Gb18030.decode.eq_def]
  refine (if_neg ha).trans ?_
  exact if_pos hb

/-- No code has a blank behind its first byte. -/
theorem Gb18030.decode_cons_blank {a b : UInt8} (ha : ¬a < 0x80) (hb : isBlankByte b = true)
    (back : List UInt8) : gb.decode (a :: b :: back) = none := by
  have hlt := lt_of_isBlankByte hb
  have hpair : gb.pair a b = none := by
    refine Option.eq_none_iff_forall_ne_some.mpr fun ch hch => ?_
    exact UInt8.not_lt.mpr (gb.le_of_pair hch) (UInt8.lt_trans hlt (by decide))
  rw [gb.decode_pair ha (fun h => UInt8.not_lt.mpr h.1 hlt), hpair]
  rfl

theorem Gb18030.decode_short {a b : UInt8} (ha : ¬a < 0x80) (hb : 0x30 ≤ b ∧ b ≤ 0x39)
    {rest : List UInt8} (hrest : rest.length < 2) : gb.decode (a :: b :: rest) = none := by
  rw [Gb18030.decode.eq_def]
  refine (if_neg ha).trans ((if_pos hb).trans ?_)
  cases rest with
  | nil => rfl
  | cons c rest =>
    cases rest with
    | nil => rfl
    | cons d rest =>
      simp only [List.length_cons] at hrest
      omega

theorem Gb18030.decode_wide_singleton {a : UInt8} (ha : ¬a < 0x80) : gb.decode [a] = none := by
  rw [Gb18030.decode.eq_def]
  exact if_neg ha

/-- A long code is not cut by a blank. -/
theorem Gb18030.decode_short_cut {a b c : UInt8} (ha : ¬a < 0x80) (hb : 0x30 ≤ b ∧ b ≤ 0x39)
    (hc : isBlankByte c = true) {rest : List UInt8} (hrest : rest.length < 2)
    (back : List UInt8) : gb.decode (a :: b :: (rest ++ c :: back)) = none := by
  have hlt := lt_of_isBlankByte hc
  have hthird : ¬0x81 ≤ c := fun h => UInt8.not_lt.mpr h (UInt8.lt_trans hlt (by decide))
  have hfourth : ¬0x30 ≤ c := fun h => UInt8.not_lt.mpr h hlt
  cases rest with
  | nil =>
    cases back with
    | nil => exact gb.decode_short ha hb (by simp)
    | cons d back =>
      rw [List.nil_append, gb.decode_quad ha hb, if_neg fun h => hthird h.2.1.1]
  | cons x rest =>
    cases rest with
    | nil =>
      rw [List.singleton_append, gb.decode_quad ha hb, if_neg fun h => hfourth h.2.2.1]
    | cons y rest =>
      simp only [List.length_cons] at hrest
      omega

theorem Gb18030.decode_append_cons (front : List UInt8) {b : UInt8} (back : List UInt8)
    (hb : isBlankByte b = true) :
    gb.decode (front ++ b :: back) =
      (gb.decode front).bind fun cs => (gb.decode back).map fun ds => cs ++ byteChar b :: ds := by
  induction front using Gb18030.decode.induct with
  | case1 => exact gb.decode_ascii (ascii_of_isBlankByte hb) back
  | case2 a rest ha ih =>
    rw [List.cons_append, gb.decode_ascii ha, gb.decode_ascii ha, ih]
    cases gb.decode rest <;> cases gb.decode back <;> rfl
  | case3 a ha =>
    rw [List.singleton_append, gb.decode_cons_blank ha hb, gb.decode_wide_singleton ha]
    rfl
  | case4 a ha second hsecond c d rest hcode ih =>
    simp only [List.cons_append]
    rw [gb.decode_quad ha hsecond, gb.decode_quad ha hsecond, if_pos hcode, if_pos hcode, ih]
    cases gb.quad a second c d <;> cases gb.decode rest <;> cases gb.decode back <;> rfl
  | case5 a ha second hsecond c d rest hcode =>
    simp only [List.cons_append]
    rw [gb.decode_quad ha hsecond, gb.decode_quad ha hsecond, if_neg hcode, if_neg hcode]
    rfl
  | case6 a ha second rest hsecond hrest =>
    have hshort : rest.length < 2 := by
      match rest, hrest with
      | [], _ => decide
      | [c], _ => simp
      | c :: d :: rest, hrest => exact absurd rfl (hrest c d rest)
    rw [gb.decode_short ha hsecond hshort]
    exact gb.decode_short_cut ha hsecond hb hshort back
  | case7 a ha second rest hsecond ih =>
    simp only [List.cons_append]
    rw [gb.decode_pair ha hsecond, gb.decode_pair ha hsecond, ih]
    cases gb.pair a second <;> cases gb.decode rest <;> cases gb.decode back <;> rfl

/-- What is read begins with one code and its character. -/
theorem Gb18030.exists_of_decode_cons {a : UInt8} {rest : List UInt8} {text : List Char}
    (h : gb.decode (a :: rest) = some text) :
    ∃ ch cs code back, text = ch :: cs ∧ a :: rest = a :: code ++ back ∧
      gb.decode back = some cs ∧ ∀ b < 0x80, byteChar b = ch → b = a := by
  have hwide : ∀ {ch : Char}, 0x80 ≤ ch.toNat → ∀ b < 0x80, byteChar b = ch → b = a := by
    rintro _ hle b hb rfl
    rw [toNat_byteChar] at hle
    exact absurd (UInt8.lt_iff_toNat_lt.mp hb) (not_lt.mpr hle)
  by_cases ha : a < 0x80
  · rw [gb.decode_ascii ha] at h
    obtain ⟨cs, hcs, rfl⟩ := Option.map_eq_some_iff.mp h
    exact ⟨byteChar a, cs, [], rest, rfl, rfl, hcs, fun _ _ => byteChar_inj.mp⟩
  · cases rest with
    | nil =>
      rw [gb.decode_wide_singleton ha] at h
      cases h
    | cons b rest =>
      by_cases hb : 0x30 ≤ b ∧ b ≤ 0x39
      · by_cases hshort : rest.length < 2
        · rw [gb.decode_short ha hb hshort] at h
          cases h
        · obtain ⟨c, d, rest, rfl⟩ : ∃ c d rest', rest = c :: d :: rest' := by
            match rest, hshort with
            | [], hshort => exact absurd (by simp) hshort
            | [c], hshort => exact absurd (by simp) hshort
            | c :: d :: rest, _ => exact ⟨c, d, rest, rfl⟩
          rw [gb.decode_quad ha hb] at h
          split_ifs at h
          obtain ⟨ch, hch, h⟩ := Option.bind_eq_some_iff.mp h
          obtain ⟨cs, hcs, rfl⟩ := Option.map_eq_some_iff.mp h
          exact ⟨ch, cs, [b, c, d], rest, rfl, rfl, hcs, hwide (gb.wide_of_quad hch)⟩
      · rw [gb.decode_pair ha hb] at h
        obtain ⟨ch, hch, h⟩ := Option.bind_eq_some_iff.mp h
        obtain ⟨cs, hcs, rfl⟩ := Option.map_eq_some_iff.mp h
        exact ⟨ch, cs, [b], rest, rfl, rfl, hcs, hwide (gb.wide_of_pair hch)⟩

theorem Gb18030.mem_of_decode {data : List UInt8} {text : List Char} {b : UInt8}
    (h : gb.decode data = some text) (hb : b < 0x80) (hmem : byteChar b ∈ text) : b ∈ data := by
  induction text generalizing data with
  | nil => cases hmem
  | cons ch cs ih =>
    cases data with
    | nil => cases h
    | cons a rest =>
      obtain ⟨ch', cs', code, back, heq, hdata, hback, hascii⟩ := gb.exists_of_decode_cons h
      obtain ⟨rfl, rfl⟩ := List.cons.inj heq
      rcases List.mem_cons.mp hmem with hfirst | hmem
      · rw [hascii b hb hfirst]
        exact List.mem_cons_self
      · rw [hdata]
        exact List.mem_append_right (a :: code) (ih hback hmem)

theorem cutsAtBlanks_gb18030 : CutsAtBlanks gb.decode where
  eq_nil_iff := by
    intro data
    cases data with
    | nil => exact iff_of_true rfl rfl
    | cons a rest =>
      refine iff_of_false (fun h => ?_) (List.cons_ne_nil a rest)
      obtain ⟨_, _, _, _, hcons, _⟩ := gb.exists_of_decode_cons h
      cases hcons
  cut := fun front _ back hb => gb.decode_append_cons front back hb
  mem := fun h hb hmem => gb.mem_of_decode h (ascii_of_isBlankByte hb) hmem

end Gb18030

theorem cutsAtBlanks_decodeLatin1 : CutsAtBlanks fun data => some (decodeLatin1 data) where
  eq_nil_iff := by simp [decodeLatin1]
  cut := by simp [decodeLatin1]
  mem := by
    intro data text b h _ hmem
    obtain rfl : decodeLatin1 data = text := Option.some.inj h
    obtain ⟨a, ha, hab⟩ := List.mem_map.mp hmem
    rwa [← byteChar_inj.mp hab]

end Ragx
