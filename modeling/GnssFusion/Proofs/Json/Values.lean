import GnssFusion.Proofs.Json.Number
import GnssFusion.Proofs.Json.Reading

/-!
Values read from the texts of documents. A reader that `Yields` an outcome gives it wherever
the text of the document stands, and lands on what follows. Elements and members are read one
after another, so arrays yield the outcomes of their elements in order (`result?_elements`)
and objects a fold over their members (`result?_members`).
-/

namespace GnssFusion.Json

namespace Document

/-- The value of a document that is neither an array nor an object. -/
def scalar? : Document → Option Value
  | null => some .null
  | boolean b => some (.boolean b)
  | number literal => (Number.ofText? literal).map fun
      | .integer z => .integer z
      | .float x => .float x
  | string s => some (.string s)
  | array _ | object _ => none

def string? : Document → Option String
  | string s => some s
  | _ => none

def float? : Document → Option Binary64
  | number literal => (Number.ofText? literal).map Number.toFloat
  | _ => none

/-- The value of a document in which the given number of brackets may be open at once. -/
def read? : ℕ → Document → Option Value
  | levels + 1, array items => Value.array <$> items.mapM (read? levels)
  | levels + 1, object members =>
      Value.object <$> members.mapM fun member => (member.1, ·) <$> read? levels member.2
  | _, document => scalar? document

theorem read?_eq_integer_iff {levels : ℕ} {document : Document} {z : ℤ} :
    document.read? levels = some (.integer z) ↔ ∃ literal : NumberText,
      document = number literal ∧ literal.IsInteger z ∧ -2 ^ 63 ≤ z ∧ z < 2 ^ 64 := by
  cases document with
  | number literal =>
      have hread : (number literal).read? levels = (number literal).scalar? := by
        cases levels <;> rfl
      have hinteger : (number literal).scalar? = some (.integer z)
          ↔ Number.ofText? literal = some (.integer z) := by
        rw [scalar?]
        cases Number.ofText? literal with
        | none => simp
        | some n => cases n <;> simp
      simp [hread, hinteger, Number.ofText?_eq_integer_iff]
  | _ => cases levels <;> simp [read?, scalar?]

theorem read?_of_scalar {document : Document} (h : document.scalar?.isSome) (levels : ℕ) :
    document.read? levels = document.scalar? := by
  cases document with
  | array | object => cases h
  | _ => cases levels <;> rfl

/-- Integers of 64 bits, texts, truth values and nothing. -/
inductive IsPlain : Document → Prop
  | null : IsPlain null
  | boolean (value : Bool) : IsPlain (boolean value)
  | string (value : String) : IsPlain (string value)
  | integer {literal : NumberText} {z : ℤ} (h : literal.IsInteger z)
      (range : -2 ^ 63 ≤ z ∧ z < 2 ^ 63) : IsPlain (number literal)

theorem IsPlain.scalar {document : Document} (h : document.IsPlain) :
    document.scalar?.isSome := by
  cases h with
  | integer h range =>
      rw [scalar?, Number.ofText?_eq_integer_iff.mpr ⟨h, range.1, range.2.trans (by decide)⟩]
      rfl
  | _ => rfl

end Document

namespace Read

/-- Wherever the text stands, reading it gives the outcome and leaves what follows. -/
def Yields {α : Type} (r : Read α) (text : List Char) (outcome : Option α) : Prop :=
  ∀ ⦃before rest : List Char⦄, Blank before → Stops rest →
    result? r (before ++ (text ++ rest)) = outcome.map (·, rest)

theorem result?_number {literal : NumberText} {text : List Char} (h : SpellsNumber literal text)
    {rest : List Char} (hrest : Stops rest) :
    result? number (text ++ rest) = (Number.ofText? literal).map (·, rest) := by
  rw [number, result?_bind, result?_numberText h .truncated hrest, Option.bind_some]
  cases Number.ofText? literal <;> rfl

theorem result?_token_spells {document : Document} {text before : List Char}
    (h : Spells document text) (hbefore : Blank before) (rest : List Char) :
    ∃ c, document.BeginsWith c
      ∧ result? token? (before ++ (text ++ rest)) = some (some c, text ++ rest) := by
  obtain ⟨c, tail, rfl, hc⟩ := h.begins
  refine ⟨c, hc, ?_⟩
  rw [result?_token, List.cons_append, dropWhile_blank hbefore hc.visible.1, List.head?_cons]

theorem scalar_yields {document : Document} {text : List Char} (h : Spells document text) :
    Yields scalar text document.scalar? := by
  intro before rest hbefore hrest
  obtain ⟨c, hc, htoken⟩ := result?_token_spells h hbefore rest
  rw [scalar, result?_bind, htoken, Option.bind_some]
  dsimp only
  cases hc with
  | null => cases h; simp only [result?_bind, result?_literal]; rfl
  | true => cases h; simp only [result?_bind, result?_literal]; rfl
  | false => cases h; simp only [result?_bind, result?_literal]; rfl
  | number literal hc =>
      cases h with | number h =>
      split
      case h_6 c heq =>
        obtain rfl := Option.some.inj heq
        simp only [hc, Bool.not_true, Bool.false_eq_true, if_false, result?_bind,
          result?_number h hrest, Document.scalar?]
        cases Number.ofText? literal with
        | none => rfl
        | some n => cases n <;> rfl
      all_goals simp_all [isNumberStart]
  | string value =>
      cases h with | string h =>
      simp [result?_quoted h, Document.scalar?]
  | array => rfl
  | object => rfl

/-! Elements. -/

/-- A text begins like a value, neither with white space nor with a closing bracket. -/
def Visible (text : List Char) : Prop :=
  ∃ c tail, text = c :: tail ∧ isSpace c = false ∧ c ≠ ']'

theorem Visible.length_pos {text : List Char} (h : Visible text) : 0 < text.length := by
  obtain ⟨c, tail, rfl, -⟩ := h
  exact Nat.succ_pos _

theorem stops_of_blank {blank : List Char} (h : Blank blank) {rest : List Char}
    (hrest : Stops rest) : Stops (blank ++ rest) := by
  cases blank with
  | nil => exact hrest
  | cons c tail =>
      intro c' hc
      obtain rfl : c = c' := by simpa using hc
      have hspace := h c List.mem_cons_self
      simp only [isSpace, Bool.or_eq_true, beq_iff_eq] at hspace
      obtain ((rfl | rfl) | rfl) | rfl := hspace <;> rfl

theorem stops_nil : Stops [] := nofun

theorem stops_bracket (rest : List Char) : Stops (']' :: rest) := by
  rintro c ⟨⟩
  rfl

theorem stops_brace (rest : List Char) : Stops ('\x7d' :: rest) := by
  rintro c ⟨⟩
  rfl

theorem stops_comma (rest : List Char) : Stops (',' :: rest) := by
  rintro c ⟨⟩
  rfl

theorem stops_of_separated {α : Type} {spells : α → List Char → Prop} {items : List α}
    {text rest : List Char} (h : Separated spells false items text) (hrest : Stops rest) :
    Stops (text ++ rest) := by
  cases h with
  | nil h => exact stops_of_blank h hrest
  | next hafter =>
      rw [List.append_assoc]
      exact stops_of_blank hafter (stops_comma _)

theorem nextElement_nil {α : Type} {spells : α → List Char → Prop} {first : Bool}
    {text : List Char} (h : Separated spells first [] text) (rest : List Char) :
    result? (nextElement first) (text ++ ']' :: rest) = some (false, ']' :: rest) := by
  cases h with
  | nil h =>
      rw [nextElement, result?_bind, result?_token, dropWhile_blank h (c := ']') rfl]
      rfl

theorem nextElement_cons {α : Type} {spells : α → List Char → Prop}
    (hvisible : ∀ {a text}, spells a text → Visible text) {item : α} {items : List α}
    {first : Bool} {text : List Char} (h : Separated spells first (item :: items) text) :
    ∃ body more, spells item body ∧ Separated spells false items more
      ∧ body.length + more.length ≤ text.length
      ∧ ∀ rest, result? (nextElement first) (text ++ rest)
        = some (true, body ++ (more ++ rest)) := by
  cases h with
  | @first item items before body more hbefore head tail =>
      obtain ⟨c, body, rfl, hspace, hc⟩ := hvisible head
      refine ⟨_, more, head, tail, by simp; omega, fun rest => ?_⟩
      simp [nextElement, dropWhile_blank hbefore hspace]
  | @next item items after before body more hafter hbefore head tail =>
      obtain ⟨c, body, rfl, hspace, hc⟩ := hvisible head
      refine ⟨_, more, head, tail, by simp; omega, fun rest => ?_⟩
      have hcomma := dropWhile_blank hafter (c := ',') rfl
      simp [nextElement, hcomma, dropWhile_blank hbefore hspace]

/-- The elements of an array are read one after another. -/
theorem result?_elementsWithin {α β : Type} {spells : α → List Char → Prop} {element : Read β}
    {meaning : α → Option β} {items : List α} {first : Bool} {text : List Char}
    (h : Separated spells first items text) (hvisible : ∀ {a text}, spells a text → Visible text)
    (helement : ∀ a ∈ items, ∀ {text}, spells a text → Yields element text (meaning a))
    (rest : List Char) {fuel : List Char} (hfuel : text.length < fuel.length) :
    result? (elementsWithin element fuel first) (text ++ ']' :: rest)
      = (items.mapM meaning).map (·, ']' :: rest) := by
  induction items generalizing first text fuel with
  | nil =>
      obtain ⟨f, left, rfl⟩ := List.exists_cons_of_length_pos (Nat.zero_lt_of_lt hfuel)
      simp [elementsWithin, nextElement_nil h]
  | cons item items ih =>
      obtain ⟨f, left, rfl⟩ := List.exists_cons_of_length_pos (Nat.zero_lt_of_lt hfuel)
      obtain ⟨body, more, head, tail, hlength, hnext⟩ := nextElement_cons hvisible h
      have hsome := (hvisible head).length_pos
      rw [List.length_cons] at hfuel
      have hleft : more.length < left.length := by omega
      have hitem := helement item List.mem_cons_self head blank_nil
        (stops_of_separated tail (stops_bracket rest))
      have hitems := ih tail (fun a ha => helement a (List.mem_cons_of_mem item ha)) hleft
      rw [List.nil_append] at hitem
      simp only [elementsWithin, result?_bind, hnext, Option.bind_some, if_true, hitem,
        List.mapM_cons]
      cases meaning item with
      | none => rfl
      | some b =>
          simp only [Option.map_some, Option.bind_some, hitems]
          cases items.mapM meaning <;> rfl

theorem result?_elements {α β : Type} {spells : α → List Char → Prop} {element : Read β}
    {meaning : α → Option β} {items : List α} {text : List Char}
    (h : Separated spells true items text) (hvisible : ∀ {a text}, spells a text → Visible text)
    (helement : ∀ a ∈ items, ∀ {text}, spells a text → Yields element text (meaning a))
    (rest : List Char) :
    result? (elements element) ('[' :: (text ++ [']']) ++ rest)
      = (items.mapM meaning).map (·, rest) := by
  have hfuel : text.length < (text ++ ']' :: rest).length := by simp
  have hitems := result?_elementsWithin h hvisible helement rest hfuel
  simp only [elements, result?_bind, result?_drop, Option.bind_some, result?_get,
    List.cons_append, List.append_assoc, List.nil_append, List.drop_one, List.tail_cons, hitems]
  cases items.mapM meaning <;> rfl

/-! Members. -/

theorem nextMember_nil {α : Type} {spells : α → List Char → Prop} {first : Bool}
    {text : List Char} (h : Separated spells first [] text) (rest : List Char) :
    result? (nextMember first) (text ++ '\x7d' :: rest) = some (false, '\x7d' :: rest) := by
  cases h with
  | nil h =>
      rw [nextMember, result?_bind, result?_token, dropWhile_blank h (c := '\x7d') rfl]
      rfl

theorem nextMember_cons {spells : Document → List Char → Prop} {name : String} {value : Document}
    {items : List (String × Document)} {first : Bool} {text : List Char}
    (h : Separated (SpellsMember spells) first ((name, value) :: items) text) :
    ∃ key after before body more, Quotes name key ∧ Blank after ∧ Blank before ∧ spells value body
      ∧ Separated (SpellsMember spells) false items more ∧ more.length < text.length
      ∧ ∀ rest, result? (nextMember first) (text ++ rest)
        = some (true, key ++ (after ++ ':' :: (before ++ (body ++ (more ++ rest))))) := by
  cases h with
  | @first _ _ space member more hspace head tail =>
      obtain @⟨_, _, key, after, before, body, hkey, hafter, hbefore, hvalue⟩ := head
      refine ⟨key, after, before, body, more, hkey, hafter, hbefore, hvalue, tail,
        by simp; omega, fun rest => ?_⟩
      obtain ⟨key, rfl⟩ := hkey.begins
      have hquote := dropWhile_blank hspace (c := '"') rfl
      simp [nextMember, hquote]
  | @next _ _ comma space member more hcomma hspace head tail =>
      obtain @⟨_, _, key, after, before, body, hkey, hafter, hbefore, hvalue⟩ := head
      refine ⟨key, after, before, body, more, hkey, hafter, hbefore, hvalue, tail,
        by simp; omega, fun rest => ?_⟩
      obtain ⟨key, rfl⟩ := hkey.begins
      have hquote := dropWhile_blank hspace (c := '"') rfl
      have hcomma := dropWhile_blank hcomma (c := ',') rfl
      simp [nextMember, hcomma, hquote]

/-- Like `Yields`, of a reader that stands before the colon of a member. -/
def YieldsMember {α : Type} (r : Read α) (text : List Char) (outcome : Option α) : Prop :=
  ∀ ⦃after before rest : List Char⦄, Blank after → Blank before → Stops rest →
    result? r (after ++ ':' :: (before ++ (text ++ rest))) = outcome.map (·, rest)

/-- The members of an object are taken one after another. -/
theorem result?_membersWithin {σ : Type} {spells : Document → List Char → Prop}
    {member : σ → String → Read σ} {meaning : σ → String × Document → Option σ}
    {items : List (String × Document)} {first : Bool} {text : List Char}
    (h : Separated (SpellsMember spells) first items text)
    (hmember : ∀ m ∈ items, ∀ {text}, spells m.2 text →
      ∀ s, YieldsMember (member s m.1) text (meaning s m))
    (rest : List Char) {fuel : List Char} (hfuel : text.length < fuel.length) (s : σ) :
    result? (membersWithin quoted member fuel first s) (text ++ '\x7d' :: rest)
      = (items.foldlM meaning s).map (·, '\x7d' :: rest) := by
  induction items generalizing first text fuel s with
  | nil =>
      obtain ⟨f, left, rfl⟩ := List.exists_cons_of_length_pos (Nat.zero_lt_of_lt hfuel)
      simp [membersWithin, nextMember_nil h]
  | cons item items ih =>
      obtain ⟨f, left, rfl⟩ := List.exists_cons_of_length_pos (Nat.zero_lt_of_lt hfuel)
      obtain ⟨key, after, before, body, more, hkey, hafter, hbefore, hvalue, tail, hlength,
        hnext⟩ := nextMember_cons h
      rw [List.length_cons] at hfuel
      have hleft : more.length < left.length := by omega
      have hitem := hmember item List.mem_cons_self hvalue s hafter hbefore
        (stops_of_separated tail (stops_brace rest))
      have hitems := ih tail (fun m hm => hmember m (List.mem_cons_of_mem item hm)) hleft
      simp only [membersWithin, result?_bind, hnext, Option.bind_some, if_true,
        result?_quoted hkey, hitem, List.foldlM_cons]
      cases meaning s item with
      | none => rfl
      | some s => exact hitems s

theorem result?_members {σ : Type} {spells : Document → List Char → Prop}
    {member : σ → String → Read σ} {meaning : σ → String × Document → Option σ}
    {items : List (String × Document)} {text : List Char}
    (h : Separated (SpellsMember spells) true items text)
    (hmember : ∀ m ∈ items, ∀ {text}, spells m.2 text →
      ∀ s, YieldsMember (member s m.1) text (meaning s m))
    (s : σ) (rest : List Char) :
    result? (members quoted member s) ('\x7b' :: (text ++ ['\x7d']) ++ rest)
      = (items.foldlM meaning s).map (·, rest) := by
  have hfuel : text.length < (text ++ '\x7d' :: rest).length := by simp
  have hitems := result?_membersWithin h hmember rest hfuel s
  simp only [members, result?_bind, result?_drop, Option.bind_some, result?_get,
    List.cons_append, List.append_assoc, List.nil_append, List.drop_one, List.tail_cons, hitems]
  cases items.foldlM meaning s <;> rfl

/-! Values. -/

theorem visible_of_spells {document : Document} {text : List Char} (h : Spells document text) :
    Visible text := by
  obtain ⟨c, tail, htext, hc⟩ := h.begins
  exact ⟨c, tail, htext, hc.visible.1, hc.visible.2⟩

theorem foldlM_append {α β : Type} (f : α → Option β) (items : List α) (before : List β) :
    items.foldlM (fun before item => (f item).map fun b => before ++ [b]) before
      = (items.mapM f).map (before ++ ·) := by
  induction items generalizing before with
  | nil => simp
  | cons item items ih =>
      simp only [List.foldlM_cons, List.mapM_cons]
      cases f item with
      | none => rfl
      | some b =>
          simp only [Option.map_some, Option.bind_eq_bind, Option.bind_some, ih]
          cases items.mapM f <;> simp

theorem member_yields {r : Read Value} {text : List Char} {outcome : Option Value}
    (h : Yields r text outcome) (s : List (String × Value)) (key : String) :
    YieldsMember (member r s key) text ((Prod.mk key <$> outcome).map fun m => s ++ [m]) := by
  intro after before rest hafter hbefore hrest
  simp only [member, result?_bind, result?_colon hafter, Option.bind_some, h hbefore hrest]
  cases outcome <;> rfl

theorem value_yields (levels : ℕ) {document : Document} {text : List Char}
    (h : Spells document text) : Yields (value levels) text (document.read? levels) := by
  induction levels generalizing document text with
  | zero =>
      have hread : document.read? 0 = document.scalar? := by cases document <;> rfl
      rw [hread, value]
      exact scalar_yields h
  | succ levels ih =>
      intro before rest hbefore hrest
      have hscalar := scalar_yields h blank_nil hrest
      obtain ⟨c, hc, htoken⟩ := result?_token_spells h hbefore rest
      rw [value, result?_bind, htoken, Option.bind_some]
      cases hc with
      | array items =>
          cases h with | array h =>
          have hitems := result?_elements h visible_of_spells (fun a _ _ ha => ih ha) rest
          simp only [result?_bind, hitems, Document.read?]
          cases items.mapM (Document.read? levels) <;> rfl
      | object members =>
          cases h with | object h =>
          have hmembers := result?_members h
            (fun m _ _ hvalue s => member_yields (ih hvalue) s m.1) [] rest
          rw [foldlM_append] at hmembers
          simp only [result?_bind, hmembers, Document.read?]
          cases members.mapM fun m => Prod.mk m.1 <$> m.2.read? levels <;> rfl
      | number literal hc =>
          dsimp only
          split
          case h_1 heq => cases heq; cases hc
          case h_2 heq => cases heq; cases hc
          case h_3 => exact hscalar
      | null | true | false | string => exact hscalar

/-! Values of one kind. -/

theorem text_yields {document : Document} {text : List Char} (h : Spells document text) :
    Yields Read.text text document.string? := by
  intro before rest hbefore hrest
  obtain ⟨c, hc, htoken⟩ := result?_token_spells h hbefore rest
  rw [Read.text, result?_bind, htoken, Option.bind_some]
  cases hc with
  | string value =>
      cases h with | string h =>
      simp [result?_quoted h, Document.string?]
  | number literal hc =>
      have hquote : c ≠ '"' := by
        rintro rfl
        cases hc
      simp [hquote, Document.string?]
  | _ => exact result?_unexpected _

theorem float_yields {document : Document} {text : List Char} (h : Spells document text) :
    Yields Read.float text document.float? := by
  intro before rest hbefore hrest
  obtain ⟨c, hc, htoken⟩ := result?_token_spells h hbefore rest
  rw [Read.float, result?_bind, htoken, Option.bind_some]
  cases hc with
  | number literal hc =>
      cases h with | number h =>
      simp only [hc, if_true, result?_map, result?_number h hrest, Document.float?]
      cases Number.ofText? literal <;> rfl
  | _ => exact result?_unexpected _

theorem skipWithin_yields {document : Document} {text : List Char} (h : Spells document text)
    (hscalar : document.scalar?.isSome) (f : Char) (left : List Char) :
    Yields (skipWithin (f :: left)) text (some ()) := by
  intro before rest hbefore hrest
  obtain ⟨c, hc, htoken⟩ := result?_token_spells h hbefore rest
  rw [skipWithin, result?_bind, htoken, Option.bind_some]
  dsimp only
  cases hc with
  | null => cases h; exact result?_literal rest _
  | true => cases h; exact result?_literal rest _
  | false => cases h; exact result?_literal rest _
  | number literal hc =>
      cases h with | number h =>
      split
      case h_8 c heq =>
        obtain rfl := Option.some.inj heq
        simp [hc, skipNumber, result?_numberText h .malformed hrest]
      all_goals simp_all [isNumberStart]
  | string value =>
      cases h with | string h =>
      exact result?_skipQuoted h rest
  | array | object => cases hscalar

/-- What is read as a scalar may also be passed over. -/
theorem skip_yields {document : Document} {text : List Char} (h : Spells document text)
    (hscalar : document.scalar?.isSome) : Yields skip text (some ()) := by
  intro before rest hbefore hrest
  have hfuel : 0 < (before ++ (text ++ rest)).length := by
    have := (visible_of_spells h).length_pos
    simp only [List.length_append]
    omega
  obtain ⟨f, left, hleft⟩ := List.exists_cons_of_length_pos hfuel
  have hskip := skipWithin_yields h hscalar f left hbefore hrest
  rw [← hleft] at hskip
  rwa [skip, result?_bind, result?_get, Option.bind_some]

end Read
end GnssFusion.Json
