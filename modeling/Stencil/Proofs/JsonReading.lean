/-
Reading JSON string literals.

`readLiteral?` takes a string literal off the front of a text, as a reader of JSON does: it resolves
every escape, two halves of a pair together, and refuses a control character, an unknown escape and
a lone half.  What it accepts is exactly what `JsonLiteral` says (`readLiteral?_eq_some_iff`).

* `JsonLiteral.escapesNext_iff` — of the quotes in a literal, only the first and the last are not
  escaped (`escapesNext`);
* `jsonString_selfDelimiting` — so the literal of a text is read back as that text, whatever follows
  on it, and no literal is the start of another one.
-/
import Stencil.Basic
import Stencil.Proofs.JsonLiteral

namespace Stencil.Text

/-! ### The reader -/

/-- The code unit that the first four characters write, and what follows. -/
def readUnit? : List Char → Option (Nat × List Char)
  | a :: b :: c :: d :: rest => (codeUnit? a b c d).map fun unit => (unit, rest)
  | _ => none

/-- The character whose first half is `high` and whose second half is written next. -/
def readPair? (high : Nat) : List Char → Option (Char × List Char)
  | '\\' :: 'u' :: cs =>
    (readUnit? cs).bind fun (low, rest) =>
      if 0xDC00 ≤ low ∧ low < 0xE000 then
        some (Char.ofNat (0x10000 + (high - 0xD800) * 0x400 + (low - 0xDC00)), rest)
      else none
  | _ => none

/-- The character that is written first between the quotes of a literal, and what follows. -/
def readChar? : List Char → Option (Char × List Char)
  | '\\' :: 'u' :: cs =>
    (readUnit? cs).bind fun (unit, rest) =>
      if unit < 0xD800 ∨ 0xE000 ≤ unit then some (Char.ofNat unit, rest)
      else if unit < 0xDC00 then readPair? unit rest
      else none
  | '\\' :: l :: rest => (letterMeaning? l).map fun c => (c, rest)
  | c :: rest => if 0x20 ≤ c.toNat ∧ c ≠ '"' ∧ c ≠ '\\' then some (c, rest) else none
  | [] => none

/-! ### What the reader accepts -/

theorem hexValue?_lt {c : Char} {n : Nat} (h : hexValue? c = some n) : n < 16 := by
  have h9 : '9'.toNat = '0'.toNat + 9 := rfl
  have hf : 'f'.toNat = 'a'.toNat + 5 := rfl
  have hF : 'F'.toNat = 'A'.toNat + 5 := rfl
  rw [hexValue?] at h
  split at h
  next hdigit =>
    obtain rfl := Option.some.inj h
    have hle : c.toNat ≤ '9'.toNat := by
      simp only [Char.isDigit, Bool.and_eq_true, decide_eq_true_eq] at hdigit
      exact UInt32.le_iff_toNat_le.mp hdigit.2
    omega
  next =>
    split at h
    next hsmall =>
      obtain rfl := Option.some.inj h
      omega
    next =>
      split at h
      next hcapital =>
        obtain rfl := Option.some.inj h
        omega
      next => cases h

theorem codeUnit?_lt {a b c d : Char} {unit : Nat} (h : codeUnit? a b c d = some unit) :
    unit < 0x10000 := by
  simp only [codeUnit?, Option.bind_eq_bind, Option.bind_eq_some_iff, Option.pure_def,
    Option.some.injEq] at h
  obtain ⟨i, hi, j, hj, k, hk, l, hl, rfl⟩ := h
  have hi := hexValue?_lt hi
  have hj := hexValue?_lt hj
  have hk := hexValue?_lt hk
  have hl := hexValue?_lt hl
  omega

theorem readUnit?_eq_some_iff {cs rest : List Char} {unit : Nat} :
    readUnit? cs = some (unit, rest) ↔
      ∃ a b c d, codeUnit? a b c d = some unit ∧ cs = a :: b :: c :: d :: rest := by
  constructor
  · intro h
    rw [readUnit?.eq_def] at h
    split at h
    next a b c d more =>
      obtain ⟨_, hunit, heq⟩ := Option.map_eq_some_iff.mp h
      obtain ⟨rfl, rfl⟩ := Prod.mk.inj heq
      exact ⟨a, b, c, d, hunit, rfl⟩
    next => cases h
  · rintro ⟨a, b, c, d, hunit, rfl⟩
    rw [readUnit?, hunit]
    rfl

theorem readPair?_eq_some_iff {high : Nat} (hhigh : 0xD800 ≤ high) (hhigh' : high < 0xDC00)
    {cs rest : List Char} {u : Char} :
    readPair? high cs = some (u, rest) ↔
      ∃ a b c d low, codeUnit? a b c d = some low ∧ 0xDC00 ≤ low ∧ low < 0xE000 ∧
        u.toNat = 0x10000 + (high - 0xD800) * 0x400 + (low - 0xDC00) ∧
        cs = '\\' :: 'u' :: a :: b :: c :: d :: rest := by
  constructor
  · intro h
    rw [readPair?.eq_def] at h
    split at h
    next more =>
      obtain ⟨⟨low, more⟩, hunit, hlow⟩ := Option.bind_eq_some_iff.mp h
      obtain ⟨a, b, c, d, hcode, rfl⟩ := readUnit?_eq_some_iff.mp hunit
      dsimp only at hlow
      split at hlow
      next hhalf =>
        obtain ⟨rfl, rfl⟩ := Prod.mk.inj (Option.some.inj hlow)
        refine ⟨a, b, c, d, low, hcode, hhalf.1, hhalf.2, ?_, rfl⟩
        exact toNat_ofNat (.inr ⟨by omega, by omega⟩)
      next => cases hlow
    next => cases h
  · rintro ⟨a, b, c, d, low, hcode, hlow, hlow', hu, rfl⟩
    rw [readPair?, readUnit?_eq_some_iff.mpr ⟨a, b, c, d, hcode, rfl⟩, Option.bind_some]
    dsimp only
    rw [if_pos ⟨hlow, hlow'⟩, ← hu, Char.ofNat_toNat]

/-- A character is read exactly where it is written. -/
theorem readChar?_eq_some_iff {cs rest : List Char} {c : Char} :
    readChar? cs = some (c, rest) ↔ ∃ as, JsonChar as c ∧ cs = as ++ rest := by
  constructor
  · intro h
    rw [readChar?.eq_def] at h
    split at h
    next more =>
      obtain ⟨⟨unit, more⟩, hunit, hchar⟩ := Option.bind_eq_some_iff.mp h
      obtain ⟨a, b, c', d, hcode, rfl⟩ := readUnit?_eq_some_iff.mp hunit
      dsimp only at hchar
      split at hchar
      next hscalar =>
        obtain ⟨rfl, rfl⟩ := Prod.mk.inj (Option.some.inj hchar)
        refine ⟨['\\', 'u', a, b, c', d], .unit ?_, rfl⟩
        have hlt := codeUnit?_lt hcode
        rw [toNat_ofNat (hscalar.imp id fun hle => ⟨by omega, by omega⟩), hcode]
      next hhalf =>
        split at hchar
        next hhigh =>
          have hle : 0xD800 ≤ unit := by omega
          obtain ⟨a', b', c'', d', low, hlow, h1, h2, hu, rfl⟩ :=
            (readPair?_eq_some_iff hle hhigh).mp hchar
          exact ⟨['\\', 'u', a, b, c', d, '\\', 'u', a', b', c'', d'],
            .pair hcode hlow hle hhigh h1 h2 hu, rfl⟩
        next => cases hchar
    next l more hl =>
      obtain ⟨_, hletter, heq⟩ := Option.map_eq_some_iff.mp h
      obtain ⟨rfl, rfl⟩ := Prod.mk.inj heq
      exact ⟨['\\', l], .letter hletter, rfl⟩
    next d more _ _ =>
      split at h
      next hplain =>
        obtain ⟨rfl, rfl⟩ := Prod.mk.inj (Option.some.inj h)
        exact ⟨[d], .plain hplain.1 hplain.2.1 hplain.2.2, rfl⟩
      next => cases h
    next => cases h
  · rintro ⟨as, hchar, rfl⟩
    cases hchar with
    | plain hle hquote hbackslash =>
      rw [List.singleton_append, readChar?.eq_def]
      split
      next h => exact absurd (List.cons.inj h).1 hbackslash
      next h => exact absurd (List.cons.inj h).1 hbackslash
      next h =>
        obtain ⟨rfl, rfl⟩ := List.cons.inj h
        exact if_pos ⟨hle, hquote, hbackslash⟩
      next h => cases h
    | @letter l _ hl =>
      -- No letter is a `u`.
      have hu : l ≠ 'u' := by
        rintro rfl
        cases hl
      rw [List.cons_append, List.singleton_append, readChar?.eq_def]
      split
      next h => exact absurd (List.cons.inj (List.cons.inj h).2).1 hu
      next h =>
        obtain ⟨-, h⟩ := List.cons.inj h
        obtain ⟨rfl, rfl⟩ := List.cons.inj h
        rw [hl]
        rfl
      next hother h =>
        obtain ⟨rfl, rfl⟩ := List.cons.inj h
        exact (hother _ _ rfl rfl).elim
      next h => cases h
    | unit hcode =>
      simp only [List.cons_append, List.nil_append]
      rw [readChar?, readUnit?_eq_some_iff.mpr ⟨_, _, _, _, hcode, rfl⟩, Option.bind_some]
      dsimp only
      rw [if_pos (toNat_not_surrogate c), Char.ofNat_toNat]
    | pair hcode hlow h1 h2 h3 h4 hu =>
      simp only [List.cons_append, List.nil_append]
      rw [readChar?, readUnit?_eq_some_iff.mpr ⟨_, _, _, _, hcode, rfl⟩, Option.bind_some]
      dsimp only
      rw [if_neg (by omega), if_pos h2]
      exact (readPair?_eq_some_iff h1 h2).mpr ⟨_, _, _, _, _, hlow, h3, h4, hu, rfl⟩

theorem readChar?_shorter {cs rest : List Char} {c : Char} (h : readChar? cs = some (c, rest)) :
    rest.length < cs.length := by
  obtain ⟨as, hchar, rfl⟩ := readChar?_eq_some_iff.mp h
  obtain ⟨d, ds, rfl, -⟩ := hchar.head
  simp only [List.cons_append, List.length_cons, List.length_append]
  omega

/-- The characters up to the quote that closes a literal, and what follows the quote. -/
def readBody? (cs : List Char) : Option (List Char × List Char) :=
  if cs.head? = some '"' then some ([], cs.tail)
  else
    match h : readChar? cs with
    | none => none
    | some (c, rest) =>
      have := readChar?_shorter h
      (readBody? rest).map fun (content, rest) => (c :: content, rest)
termination_by cs.length

/-- The text of the literal that is written first, and what follows the literal. -/
def readLiteral? : List Char → Option (List Char × List Char)
  | '"' :: cs => readBody? cs
  | _ => none

theorem readBody?_eq_some_iff {cs content rest : List Char} :
    readBody? cs = some (content, rest) ↔
      ∃ body, JsonBody body content ∧ cs = body ++ '"' :: rest := by
  constructor
  · intro h
    induction cs using readBody?.induct generalizing content with
    | case1 cs hquote =>
      rw [readBody?, if_pos hquote] at h
      obtain ⟨rfl, rfl⟩ := Prod.mk.inj (Option.some.inj h)
      obtain ⟨tail, rfl⟩ := List.head?_eq_some_iff.mp hquote
      exact ⟨[], .nil, rfl⟩
    | case2 cs hquote hnone =>
      rw [readBody?, if_neg hquote] at h
      split at h
      next => cases h
      next hsome => cases hnone.symm.trans hsome
    | case3 cs hquote c more hchar _ ih =>
      rw [readBody?, if_neg hquote] at h
      split at h
      next => cases h
      next hchar' =>
        obtain ⟨rfl, rfl⟩ := Prod.mk.inj (Option.some.inj (hchar.symm.trans hchar'))
        obtain ⟨_, hmore, heq⟩ := Option.map_eq_some_iff.mp h
        obtain ⟨rfl, rfl⟩ := Prod.mk.inj heq
        obtain ⟨body, hbody, rfl⟩ := ih hmore
        obtain ⟨as, has, rfl⟩ := readChar?_eq_some_iff.mp hchar
        exact ⟨as ++ body, .cons has hbody, (List.append_assoc ..).symm⟩
  · rintro ⟨body, hbody, rfl⟩
    induction hbody with
    | nil =>
      rw [List.nil_append, readBody?]
      rfl
    | @cons as bs cs c hc _ ih =>
      obtain ⟨d, ds, hhead, hquote⟩ := hc.head
      have hchar : readChar? (as ++ bs ++ '"' :: rest) = some (c, bs ++ '"' :: rest) :=
        readChar?_eq_some_iff.mpr ⟨as, hc, List.append_assoc ..⟩
      rw [readBody?, if_neg (by rw [hhead]; simpa using hquote)]
      split
      next hnone => cases hchar.symm.trans hnone
      next hchar' =>
        obtain ⟨rfl, rfl⟩ := Prod.mk.inj (Option.some.inj (hchar.symm.trans hchar'))
        rw [ih]
        rfl

/-- The reader takes off exactly the literal that the text starts with. -/
theorem readLiteral?_eq_some_iff {cs content rest : List Char} :
    readLiteral? cs = some (content, rest) ↔
      ∃ literal, JsonLiteral literal content ∧ cs = literal ++ rest := by
  constructor
  · intro h
    rw [readLiteral?.eq_def] at h
    split at h
    next =>
      obtain ⟨body, hbody, rfl⟩ := readBody?_eq_some_iff.mp h
      exact ⟨_, ⟨body, hbody, rfl⟩, by simp⟩
    next => cases h
  · rintro ⟨_, ⟨body, hbody, rfl⟩, rfl⟩
    rw [List.cons_append, List.append_assoc, readLiteral?]
    exact readBody?_eq_some_iff.mpr ⟨body, hbody, rfl⟩

/-! ### Quotes behind backslashes -/

/-- Whether a character behind `before` is escaped: the backslash in front of it is no part of an
escape itself. -/
def escapesNext (before : List Char) : Bool :=
  before.foldl (fun escapes c => !escapes && c = '\\') false

theorem escapesNext_append {as : List Char} (h : escapesNext as = false) (bs : List Char) :
    escapesNext (as ++ bs) = escapesNext bs := by
  rw [escapesNext, List.foldl_append]
  exact congrArg (bs.foldl _) h

theorem escapesNext_of_not_mem {as : List Char} (h : '\\' ∉ as) : escapesNext as = false := by
  induction as with
  | nil => rfl
  | cons c cs ih =>
    obtain ⟨hc, hcs⟩ := List.ne_and_not_mem_of_not_mem_cons h
    have hfirst : escapesNext [c] = false := by simpa [escapesNext] using Ne.symm hc
    exact (escapesNext_append hfirst cs).trans (ih hcs)

/-- Hexadecimal digits are neither quotes nor backslashes. -/
theorem ne_of_mem_codeUnit? {a b c d : Char} {unit : Nat} (h : codeUnit? a b c d = some unit)
    {x : Char} (hx : x ∈ [a, b, c, d]) : x ≠ '"' ∧ x ≠ '\\' := by
  simp only [codeUnit?, Option.bind_eq_bind, Option.bind_eq_some_iff] at h
  obtain ⟨i, hi, j, hj, k, hk, l, hl, -⟩ := h
  have hvalue : ∃ n, hexValue? x = some n := by
    simp only [List.mem_cons, List.not_mem_nil, or_false] at hx
    rcases hx with rfl | rfl | rfl | rfl
    · exact ⟨i, hi⟩
    · exact ⟨j, hj⟩
    · exact ⟨k, hk⟩
    · exact ⟨l, hl⟩
  obtain ⟨n, hn⟩ := hvalue
  constructor
  · rintro rfl
    cases hn
  · rintro rfl
    cases hn

/-- A written code unit ends with no backslash open, and has no quote. -/
theorem escapesNext_codeUnit {a b c d : Char} {unit : Nat} (h : codeUnit? a b c d = some unit) :
    escapesNext ['\\', 'u', a, b, c, d] = false ∧ '"' ∉ ['\\', 'u', a, b, c, d] := by
  constructor
  · have hopen : escapesNext ['\\', 'u'] = false := rfl
    refine (escapesNext_append hopen [a, b, c, d]).trans (escapesNext_of_not_mem fun hmem => ?_)
    exact (ne_of_mem_codeUnit? h hmem).2 rfl
  · intro hmem
    have hdigit : '"' ∈ [a, b, c, d] := by simpa using hmem
    exact (ne_of_mem_codeUnit? h hdigit).1 rfl

/-- A written character ends with no backslash open, and a quote in it stands behind one. -/
theorem JsonChar.escapesNext {as : List Char} {c : Char} (h : JsonChar as c) :
    Text.escapesNext as = false ∧ ('"' ∈ as → as = ['\\', '"']) := by
  cases h with
  | plain _ hquote hbackslash =>
    refine ⟨escapesNext_of_not_mem fun hmem => ?_, fun hmem => ?_⟩
    · exact hbackslash (List.mem_singleton.mp hmem).symm
    · exact absurd (List.mem_singleton.mp hmem).symm hquote
  | letter =>
    refine ⟨rfl, fun hmem => ?_⟩
    rcases List.mem_cons.mp hmem with h | h
    · cases h
    · rw [List.mem_singleton.mp h]
  | unit hunit =>
    obtain ⟨hends, hfree⟩ := escapesNext_codeUnit hunit
    exact ⟨hends, fun hmem => absurd hmem hfree⟩
  | pair hhigh hlow =>
    obtain ⟨hends, hfree⟩ := escapesNext_codeUnit hhigh
    obtain ⟨hends', hfree'⟩ := escapesNext_codeUnit hlow
    refine ⟨(escapesNext_append hends _).trans hends', fun hmem => ?_⟩
    exact absurd (List.mem_append.mp hmem) (not_or.mpr ⟨hfree, hfree'⟩)

/-- Between the quotes of a literal, every quote is escaped, and no backslash is open at the
end. -/
theorem JsonBody.escapesNext {body content : List Char} (h : JsonBody body content) :
    Text.escapesNext body = false ∧
      ∀ before after, body = before ++ '"' :: after → Text.escapesNext before = true := by
  induction h with
  | nil => exact ⟨rfl, fun _ _ h => absurd h.symm (by simp)⟩
  | @cons as bs _ _ hc _ ih =>
    obtain ⟨hends, hquote⟩ := hc.escapesNext
    refine ⟨(escapesNext_append hends bs).trans ih.1, fun before after h => ?_⟩
    rcases List.append_eq_append_iff.mp h with ⟨more, rfl, hbs⟩ | ⟨more, has, hmore⟩
    · exact (escapesNext_append hends more).trans (ih.2 _ _ hbs)
    · cases more with
      | nil =>
        -- The quote would be the first character of what follows, where none is free.
        exact absurd (ih.2 [] _ hmore.symm) Bool.false_ne_true
      | cons q more =>
        obtain ⟨rfl, -⟩ := List.cons.inj hmore
        have hescape := has.symm.trans (hquote (by rw [has]; simp))
        match before, hescape with
        | [], h => cases h
        | [_], h => rw [(List.cons.inj h).1]; rfl
        | _ :: _ :: _, h => simp at h

/-- Only the first and the last quote of a literal are not escaped. -/
theorem JsonLiteral.escapesNext_iff {literal content before after : List Char}
    (h : JsonLiteral literal content) (hquote : literal = before ++ '"' :: after) :
    escapesNext before = false ↔ before = [] ∨ after = [] := by
  obtain ⟨body, hbody, rfl⟩ := h
  obtain ⟨hends, hescaped⟩ := hbody.escapesNext
  cases before with
  | nil => exact iff_of_true rfl (.inl rfl)
  | cons q before =>
    obtain ⟨rfl, hsplit⟩ := List.cons.inj hquote
    have hfirst : escapesNext ('"' :: before) = escapesNext before := rfl
    rw [hfirst]
    rcases List.eq_nil_or_concat after with rfl | ⟨more, last, rfl⟩
    · obtain rfl : body = before := List.append_cancel_right hsplit
      exact iff_of_true hends (.inr rfl)
    · have hinner : body ++ ['"'] = (before ++ '"' :: more) ++ [last] := by
        rw [hsplit, List.concat_eq_append]
        simp
      rw [hescaped _ _ (List.append_inj_left' hinner rfl)]
      simp

/-! ### The literals of `jsonString` -/

/-- A reader that starts on the literal of a text reads this text, whatever follows, and stops
behind the literal.  So no two texts have one literal, no literal starts another one, and its first
and last quotes are the only ones that are not escaped. -/
theorem jsonString_selfDelimiting (text : String) :
    (∀ rest : String,
      readLiteral? (jsonString text ++ rest).toList = some (text.toList, rest.toList)) ∧
    (∀ text', jsonString text = jsonString text' → text = text') ∧
    (∀ text', (jsonString text).toList <+: (jsonString text').toList →
      jsonString text = jsonString text') ∧
    ∃ body, (jsonString text).toList = '"' :: (body ++ ['"']) ∧
      ∀ before after, (jsonString text).toList = before ++ '"' :: after →
        (escapesNext before = false ↔ before = [] ∨ after = []) := by
  have hliteral := jsonLiteral_jsonString text
  have hunique : ∀ text' rest,
      (jsonString text).toList ++ rest = (jsonString text').toList → text = text' := by
    intro text' rest heq
    have happend : (jsonString text).toList ++ rest = (jsonString text').toList ++ [] := by
      rw [heq, List.append_nil]
    exact String.toList_inj.mp (hliteral.unique (jsonLiteral_jsonString text') happend).1
  refine ⟨fun rest => ?_, fun text' heq => ?_, fun text' => ?_, _, toList_jsonString text, ?_⟩
  · rw [String.toList_append]
    exact readLiteral?_eq_some_iff.mpr ⟨_, hliteral, rfl⟩
  · exact hunique text' [] (by rw [List.append_nil, heq])
  · rintro ⟨rest, heq⟩
    rw [hunique text' rest heq]
  · exact fun _ _ => hliteral.escapesNext_iff

/-- A text that ends in a backslash, before a quote that is not its own. -/
theorem jsonString_selfDelimiting_backslash :
    readLiteral? (jsonString "a\"\x01\\" ++ "\"+b").toList =
      some ("a\"\x01\\".toList, "\"+b".toList) :=
  (jsonString_selfDelimiting "a\"\x01\\").1 "\"+b"

end Stencil.Text
