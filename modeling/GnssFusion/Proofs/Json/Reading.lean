import GnssFusion.Proofs.Json.Document

/-!
Readers on the texts of documents. What a reader makes of a text is its value and the text
that is left, or nothing if there is a fault (`result?`). A text in quotes is read as what it
says, however its characters are written (`result?_quoted`), and a number up to where it ends
(`result?_numberText`).
-/

namespace GnssFusion.Json

/-- A run of digits does not begin with another character. -/
theorem IsDigits.head?_ne {text : List Char} (h : IsDigits text) {c : Char}
    (hc : c.isDigit = false) : text.head? ≠ Option.some c := by
  intro hhead
  exact absurd (h.all c (List.mem_of_mem_head? hhead)) (by simp [hc])

/-- Characters with which a number goes on. -/
def continuesNumber (c : Char) : Bool := c.isDigit || c == '.' || c == 'e' || c == 'E'

/-- No number goes on with a text. -/
def Stops (text : List Char) : Prop := ∀ c ∈ text.head?, continuesNumber c = false

theorem Stops.head? {text : List Char} (h : Stops text) {c : Char} (hc : c ∈ text.head?) :
    c.isDigit = false ∧ c ≠ '.' ∧ c ≠ 'e' ∧ c ≠ 'E' := by
  have := h c hc
  simp only [continuesNumber, Bool.or_eq_false_iff, beq_eq_false_iff_ne] at this
  tauto

theorem SpellsExponent.head? {exponent : Option (Bool × List Char)} {text rest : List Char}
    (h : SpellsExponent exponent text) (hrest : Stops rest) :
    ∀ c ∈ (text ++ rest).head?, c.isDigit = false ∧ c ≠ '.' := by
  intro c hc
  cases h with
  | none => exact ⟨(hrest.head? hc).1, (hrest.head? hc).2.1⟩
  | @some negative mark sign digits hmark =>
      obtain rfl : mark = c := by simpa using hc
      obtain rfl | rfl := hmark <;> decide

theorem SpellsFraction.head? {fraction : Option (List Char)} {text rest : List Char}
    (h : SpellsFraction fraction text) (hrest : ∀ c ∈ rest.head?, c.isDigit = false) :
    ∀ c ∈ (text ++ rest).head?, c.isDigit = false := by
  intro c hc
  cases h with
  | none => exact hrest c hc
  | some h =>
      obtain rfl : '.' = c := by simpa using hc
      rfl

namespace Read

/-- Value and text left, if there is no fault. -/
def result? {α : Type} (r : Read α) (text : List Char) : Option (α × List Char) :=
  (r.run text).toOption

section
variable {α β : Type} (text : List Char)

@[simp] theorem result?_pure (a : α) : result? (pure a) text = some (a, text) := rfl

@[simp] theorem result?_bind (r : Read α) (f : α → Read β) :
    result? (r >>= f) text = (result? r text).bind fun p => result? (f p.1) p.2 := by
  rw [result?, StateT.run_bind]
  cases h : r.run text <;> simp [result?, h, Except.toOption] <;> rfl

@[simp] theorem result?_map (f : α → β) (r : Read α) :
    result? (f <$> r) text = (result? r text).map fun p => (f p.1, p.2) := by
  rw [map_eq_pure_bind, result?_bind]
  cases result? r text <;> rfl

@[simp] theorem result?_get : result? get text = some (text, text) := rfl

@[simp] theorem result?_set (other : List Char) : result? (set other) text = some ((), other) := rfl

@[simp] theorem result?_modify (f : List Char → List Char) :
    result? (modify f) text = some ((), f text) := rfl

@[simp] theorem result?_peek : result? peek? text = some (text.head?, text) := by
  simp [peek?]

@[simp] theorem result?_token :
    result? token? text = some ((text.dropWhile isSpace).head?, text.dropWhile isSpace) := by
  simp [token?]

@[simp] theorem result?_drop : result? drop text = some ((), text.drop 1) := rfl

@[simp] theorem result?_next (c : Char) : result? next (c :: text) = some (c, text) := by
  simp [next]

@[simp] theorem result?_takeWhile (test : Char → Bool) :
    result? (takeWhile test) text = some (text.takeWhile test, text.dropWhile test) := by
  simp [takeWhile]

theorem result?_literal (cs : List Char) :
    result? (literal cs) (cs ++ text) = some ((), text) := by
  induction cs with
  | nil => rfl
  | cons c cs ih => simp [literal, ih]

/-- A value of another kind than the expected one is a fault in any text. -/
@[simp] theorem result?_unexpected : result? (unexpected : Read α) text = none := by
  simp only [unexpected, result?_bind, result?_token, Option.bind_some]
  split
  · rfl
  · rfl
  · rw [result?_bind]
    cases result? scalar (text.dropWhile isSpace) <;> rfl

end

theorem dropWhile_blank {blank : List Char} (h : Blank blank) {c : Char} (hc : isSpace c = false)
    (rest : List Char) : (blank ++ c :: rest).dropWhile isSpace = c :: rest := by
  rw [List.dropWhile_append_of_pos h, List.dropWhile_cons, hc, if_neg Bool.false_ne_true]

theorem result?_colon {blank : List Char} (h : Blank blank) (rest : List Char) :
    result? colon (blank ++ ':' :: rest) = some ((), rest) := by
  simp [colon, dropWhile_blank h (c := ':') rfl]

/-! Text in quotes. -/

theorem result?_hexCode {code : ℕ} {digits : List Char} (h : IsCode code digits)
    (rest : List Char) : result? hexCode (digits ++ rest) = some (code, rest) := by
  have htake : (digits ++ rest).take 4 = digits := by rw [← h.length, List.take_left]
  have hdrop : (digits ++ rest).drop 4 = rest := by rw [← h.length, List.drop_left]
  have hhex : digits.all isHexDigit := List.all_eq_true.mpr h.hex
  simp only [hexCode, result?_bind, result?_get, Option.bind_some, htake, hdrop, h.length, hhex,
    h.value, and_self, if_true, result?_set, result?_pure]

theorem result?_codedChar {c : Char} {digits : List Char} (h : IsCode c.toNat digits)
    (rest : List Char) : result? codedChar (digits ++ rest) = some (c, rest) := by
  have hvalid : c.toNat < 0xd800 ∨ 0xdfff < c.toNat := c.valid.imp_right And.left
  simp only [codedChar, result?_bind, result?_hexCode h, Option.bind_some, if_pos hvalid,
    result?_pure, Char.ofNat_toNat]

theorem result?_codedPair {c : Char} {high low : ℕ} {upper lower : List Char}
    (hupper : IsCode high upper) (hlower : IsCode low lower)
    (hhigh : 0xd800 ≤ high ∧ high < 0xdc00) (hlow : 0xdc00 ≤ low ∧ low ≤ 0xdfff)
    (h : c.toNat = 0x10000 + 0x400 * (high - 0xd800) + (low - 0xdc00)) (rest : List Char) :
    result? codedChar (upper ++ '\\' :: 'u' :: (lower ++ rest)) = some (c, rest) := by
  have hsingle : ¬ (high < 0xd800 ∨ 0xdfff < high) := by omega
  have hfirst : ¬ 0xdc00 ≤ high := by omega
  have hsecond : ¬ (low < 0xdc00 ∨ 0xdfff < low) := by omega
  have hmark := result?_literal (lower ++ rest) ['\\', 'u']
  simp only [List.cons_append, List.nil_append] at hmark
  simp only [codedChar, result?_bind, result?_hexCode hupper, result?_hexCode hlower, hmark,
    Option.bind_some, if_neg hsingle, if_neg hfirst, if_neg hsecond, result?_pure, ← h,
    Char.ofNat_toNat]

section
variable (coded : Read Char) (f : Char) (left : List Char)

theorem textWithin_plain {c : Char} (quote : c ≠ '"') (backslash : c ≠ '\\')
    (control : 0x20 ≤ c.toNat) (tail : List Char) :
    result? (textWithin coded (f :: left)) (c :: tail)
      = (result? (textWithin coded left) tail).map fun p => (c :: p.1, p.2) := by
  have hcontrol : ¬ c.toNat < 0x20 := by omega
  simp only [textWithin, result?_bind, result?_next, Option.bind_some, if_neg hcontrol,
    result?_pure]
  cases result? (textWithin coded left) tail <;> rfl

/-- A character behind a backslash is the one that `escape` reads there. -/
theorem textWithin_escape {c : Char} {text tail : List Char}
    (h : result? (escape coded) (text ++ tail) = some (c, tail)) :
    result? (textWithin coded (f :: left)) ('\\' :: (text ++ tail))
      = (result? (textWithin coded left) tail).map fun p => (c :: p.1, p.2) := by
  simp only [textWithin, result?_bind, result?_next, Option.bind_some, h, result?_pure]
  cases result? (textWithin coded left) tail <;> rfl

end

theorem result?_escape (coded : Read Char) {c letter : Char} (h : (c, letter) ∈ escapes)
    (tail : List Char) : result? (escape coded) ([letter] ++ tail) = some (c, tail) := by
  simp only [escapes, List.mem_cons, Prod.mk.injEq, List.not_mem_nil, or_false] at h
  obtain ⟨rfl, rfl⟩ | ⟨rfl, rfl⟩ | ⟨rfl, rfl⟩ | ⟨rfl, rfl⟩ | ⟨rfl, rfl⟩ | ⟨rfl, rfl⟩ | ⟨rfl, rfl⟩
    | ⟨rfl, rfl⟩ := h <;> rfl

theorem result?_escape_coded {coded : Read Char} {c : Char} {digits tail : List Char}
    (h : result? coded (digits ++ tail) = some (c, tail)) :
    result? (escape coded) ('u' :: digits ++ tail) = some (c, tail) := by
  simp [escape, h]

theorem textWithin_spellsChar {c : Char} {text : List Char} (h : SpellsChar c text) (f : Char)
    (left tail : List Char) :
    result? (textWithin codedChar (f :: left)) (text ++ tail)
      = (result? (textWithin codedChar left) tail).map fun p => (c :: p.1, p.2) := by
  cases h with
  | plain quote backslash control =>
      exact textWithin_plain codedChar f left quote backslash control tail
  | escape h => exact textWithin_escape codedChar f left (result?_escape codedChar h tail)
  | code h =>
      exact textWithin_escape codedChar f left (result?_escape_coded (result?_codedChar h tail))
  | pair hupper hlower hhigh hlow h =>
      refine textWithin_escape codedChar f left (result?_escape_coded ?_)
      simpa using result?_codedPair hupper hlower hhigh hlow h tail

theorem textWithin_spells {cs text : List Char} (h : SpellsChars cs text) (rest : List Char) :
    ∀ {fuel : List Char}, text.length < fuel.length →
      result? (textWithin codedChar fuel) (text ++ '"' :: rest) = some (cs, rest) := by
  induction h with
  | nil =>
      intro fuel hfuel
      cases fuel with
      | nil => cases hfuel
      | cons f left => simp [textWithin]
  | @cons c cs text more head tail ih =>
      intro fuel hfuel
      cases fuel with
      | nil => cases hfuel
      | cons f left =>
          have hsome := head.length_pos
          have hleft : more.length < left.length := by
            rw [List.length_append, List.length_cons] at hfuel
            omega
          rw [List.append_assoc, textWithin_spellsChar head, ih hleft, Option.map_some]

theorem result?_quoted {s : String} {text : List Char} (h : Quotes s text) (rest : List Char) :
    result? quoted (text ++ rest) = some (s, rest) := by
  obtain ⟨h⟩ := h
  simp [quoted, textWithin_spells h]

/-! Text that is passed over. The halves of a surrogate pair are two characters there. -/

section
variable {coded : Read Char} {mark : Char}

theorem textWithin_skips (hcoded : ∀ {code digits}, IsCode code digits → ∀ tail,
    result? coded (digits ++ tail) = some (mark, tail)) {c : Char} {text : List Char}
    (h : SpellsChar c text) {fuel : List Char} (hfuel : text.length ≤ fuel.length) :
    ∃ out left, fuel.length ≤ left.length + text.length
      ∧ ∀ tail, result? (textWithin coded fuel) (text ++ tail)
        = (result? (textWithin coded left) tail).map fun p => (out ++ p.1, p.2) := by
  obtain ⟨f, left, rfl⟩ := List.exists_cons_of_length_pos (h.length_pos.trans_le hfuel)
  cases h with
  | plain quote backslash control =>
      exact ⟨[c], left, by simp, textWithin_plain coded f left quote backslash control⟩
  | escape h =>
      exact ⟨[c], left, by simp, fun tail =>
        textWithin_escape coded f left (result?_escape coded h tail)⟩
  | code h =>
      exact ⟨[mark], left, by simp, fun tail =>
        textWithin_escape coded f left (result?_escape_coded (hcoded h tail))⟩
  | @pair high low upper lower hupper hlower =>
      have hleft : 0 < left.length := by
        simp only [List.length_cons, List.length_append] at hfuel
        omega
      obtain ⟨g, left, rfl⟩ := List.exists_cons_of_length_pos hleft
      have hlength : (f :: g :: left).length
          ≤ left.length + ('\\' :: 'u' :: (upper ++ '\\' :: 'u' :: lower)).length := by
        simp only [List.length_cons, List.length_append]
        omega
      refine ⟨[mark, mark], left, hlength, fun tail => ?_⟩
      have hsecond := textWithin_escape coded g left (result?_escape_coded (hcoded hlower tail))
      have hfirst := textWithin_escape coded f (g :: left) (result?_escape_coded
        (hcoded hupper ('\\' :: ('u' :: lower ++ tail))))
      rw [hsecond] at hfirst
      simpa [Function.comp_def] using hfirst

theorem textWithin_skips_all (hcoded : ∀ {code digits}, IsCode code digits → ∀ tail,
    result? coded (digits ++ tail) = some (mark, tail)) {cs text : List Char}
    (h : SpellsChars cs text) (rest : List Char) {fuel : List Char}
    (hfuel : text.length < fuel.length) :
    ∃ out, result? (textWithin coded fuel) (text ++ '"' :: rest) = some (out, rest) := by
  induction h generalizing fuel with
  | nil =>
      obtain ⟨f, left, rfl⟩ := List.exists_cons_of_length_pos (Nat.zero_lt_of_lt hfuel)
      exact ⟨[], by simp [textWithin]⟩
  | @cons c cs text more head tail ih =>
      rw [List.length_append] at hfuel
      have hhead : text.length ≤ fuel.length := by omega
      obtain ⟨out, left, hleft, hchar⟩ := textWithin_skips hcoded head hhead
      have htail : more.length < left.length := by omega
      obtain ⟨more, hmore⟩ := ih htail
      exact ⟨out ++ more, by rw [List.append_assoc, hchar, hmore]; rfl⟩

end

theorem result?_skipQuoted {s : String} {text : List Char} (h : Quotes s text) (rest : List Char) :
    result? skipQuoted (text ++ rest) = some ((), rest) := by
  cases h with
  | @mk cs body h =>
      have hcoded : ∀ {code digits}, IsCode code digits → ∀ tail,
          result? (do let _ ← hexCode; return '\ufffd') (digits ++ tail)
            = some ('\ufffd', tail) := by
        intro code digits hcode tail
        rw [result?_bind, result?_hexCode hcode]
        rfl
      have hfuel : body.length < (body ++ '"' :: rest).length := by simp
      obtain ⟨out, hout⟩ := textWithin_skips_all hcoded h rest hfuel
      simp only [skipQuoted, result?_bind, result?_drop, Option.bind_some, result?_get,
        List.cons_append, List.append_assoc, List.nil_append, List.drop_one, List.tail_cons, hout,
        result?_pure]

/-! Numbers. -/

theorem result?_digits {text : List Char} (h : IsDigits text) (atEnd : Fault) {rest : List Char}
    (hrest : ∀ c ∈ rest.head?, c.isDigit = false) :
    result? (digits atEnd) (text ++ rest) = some (text, rest) := by
  have htake : rest.takeWhile Char.isDigit = [] := by
    cases rest with
    | nil => rfl
    | cons c rest => exact List.takeWhile_cons_of_neg (by simp [hrest c rfl])
  have hdrop : rest.dropWhile Char.isDigit = rest := by
    cases rest with
    | nil => rfl
    | cons c rest => exact List.dropWhile_cons_of_neg (by simp [hrest c rfl])
  simp [digits, List.takeWhile_append_of_pos h.all, List.dropWhile_append_of_pos h.all, htake,
    hdrop, h.ne_nil]

theorem result?_minus (negative : Bool) {whole : List Char} (h : IsDigits whole)
    (rest : List Char) :
    result? minus ((if negative then ['-'] else []) ++ (whole ++ rest))
      = some (negative, whole ++ rest) := by
  have hminus := h.head?_ne (c := '-') rfl
  cases negative
  · simp [minus, h.ne_nil, hminus]
  · simp [minus]

theorem result?_fraction {fraction : Option (List Char)} {text : List Char}
    (h : SpellsFraction fraction text) (atEnd : Fault) {rest : List Char}
    (hdigits : ∀ c ∈ rest.head?, c.isDigit = false) (hpoint : rest.head? ≠ some '.') :
    result? (Read.fraction atEnd) (text ++ rest) = some (fraction, rest) := by
  cases h with
  | none => simp [Read.fraction, hpoint]
  | some h => simp [Read.fraction, result?_digits h atEnd hdigits]

theorem result?_exponent {exponent : Option (Bool × List Char)} {text : List Char}
    (h : SpellsExponent exponent text) (atEnd : Fault) {rest : List Char} (hrest : Stops rest) :
    result? (Read.exponent atEnd) (text ++ rest) = some (exponent, rest) := by
  cases h with
  | none =>
      cases rest with
      | nil => rfl
      | cons c rest =>
          obtain ⟨-, -, hlower, hupper⟩ := hrest.head? (c := c) rfl
          simp [Read.exponent, hlower, hupper]
  | some hmark hsign h =>
      have hdigits := result?_digits h atEnd fun c hc => (hrest.head? hc).1
      have hplus := h.head?_ne (c := '+') rfl
      have hminus := h.head?_ne (c := '-') rfl
      obtain rfl | rfl := hmark <;> obtain ⟨rfl, rfl⟩ | ⟨rfl | rfl, rfl⟩ := hsign <;>
        simp [Read.exponent, h.ne_nil, hplus, hminus, hdigits]

theorem result?_numberText {literal : NumberText} {text : List Char}
    (h : SpellsNumber literal text) (atEnd : Fault) {rest : List Char} (hrest : Stops rest) :
    result? (numberText atEnd) (text ++ rest) = some (literal, rest) := by
  cases h with
  | @mk negative whole fractionText exponentText fraction exponent hwhole zero hfraction
      hexponent =>
    have hmark := hexponent.head? hrest
    have hdigits := hfraction.head? fun c hc => (hmark c hc).1
    have hlead : ¬ (1 < whole.length ∧ whole.head? = some '0') := by
      rintro ⟨hlength, hhead⟩
      exact absurd (zero hhead) hlength.ne'
    have hpoint : (exponentText ++ rest).head? ≠ some '.' := fun h => (hmark '.' h).2 rfl
    simp only [numberText, List.append_assoc, result?_bind, result?_minus negative hwhole,
      result?_digits hwhole atEnd hdigits, Option.bind_some, if_neg hlead, result?_pure,
      result?_fraction hfraction atEnd (fun c hc => (hmark c hc).1) hpoint,
      result?_exponent hexponent atEnd hrest]

end Read
end GnssFusion.Json
