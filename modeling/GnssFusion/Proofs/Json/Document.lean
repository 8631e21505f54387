import GnssFusion.Proofs.Decimal.ReadBack
import GnssFusion.Json.Value

/-!
JSON documents and how they are written. A document is what a text says, with its numbers
as they stand there. `Spells` relates to it every text that says it: any white space stands
between the tokens, and a character in quotes may be written in each of the ways there are.
-/

namespace GnssFusion.Json

inductive Document
  | null
  | boolean (value : Bool)
  | number (literal : NumberText)
  | string (text : String)
  | array (items : List Document)
  | object (members : List (String × Document))

def Blank (text : List Char) : Prop := ∀ c ∈ text, Read.isSpace c

theorem blank_nil : Blank [] := nofun

theorem blank_space : Blank [' '] := by simp [Blank, Read.isSpace]

/-! Text in quotes. -/

/-- The letters that stand for a character behind a backslash. -/
def escapes : List (Char × Char) := [
  ('"', '"'), ('\\', '\\'), ('/', '/'), ('\x08', 'b'), ('\x0c', 'f'), ('\n', 'n'), ('\r', 'r'),
  ('\t', 't')]

/-- Four hexadecimal digits of a code. -/
structure IsCode (code : ℕ) (digits : List Char) : Prop where
  length : digits.length = 4
  hex : ∀ c ∈ digits, isHexDigit c
  value : ofDigits 16 digits = code

inductive SpellsChar : Char → List Char → Prop
  | plain {c : Char} (quote : c ≠ '"') (backslash : c ≠ '\\') (control : 0x20 ≤ c.toNat) :
      SpellsChar c [c]
  | escape {c letter : Char} (h : (c, letter) ∈ escapes) : SpellsChar c ['\\', letter]
  | code {c : Char} {digits : List Char} (h : IsCode c.toNat digits) :
      SpellsChar c ('\\' :: 'u' :: digits)
  /-- The two halves of a surrogate pair. -/
  | pair {c : Char} {high low : ℕ} {upper lower : List Char} (hupper : IsCode high upper)
      (hlower : IsCode low lower) (hhigh : 0xd800 ≤ high ∧ high < 0xdc00)
      (hlow : 0xdc00 ≤ low ∧ low ≤ 0xdfff)
      (h : c.toNat = 0x10000 + 0x400 * (high - 0xd800) + (low - 0xdc00)) :
      SpellsChar c ('\\' :: 'u' :: (upper ++ '\\' :: 'u' :: lower))

theorem SpellsChar.length_pos {c : Char} {text : List Char} (h : SpellsChar c text) :
    0 < text.length := by
  cases h <;> exact Nat.succ_pos _

inductive SpellsChars : List Char → List Char → Prop
  | nil : SpellsChars [] []
  | cons {c : Char} {cs text more : List Char} (head : SpellsChar c text)
      (tail : SpellsChars cs more) : SpellsChars (c :: cs) (text ++ more)

inductive Quotes : String → List Char → Prop
  | mk {cs text : List Char} (h : SpellsChars cs text) :
      Quotes (String.ofList cs) ('"' :: (text ++ ['"']))

/-- The characters that may stand for themselves. -/
def isOrdinary (c : Char) : Bool := c ≠ '"' ∧ c ≠ '\\' ∧ 0x20 ≤ c.toNat

theorem spellsChars_self {cs : List Char} (h : cs.all isOrdinary) : SpellsChars cs cs := by
  induction cs with
  | nil => exact .nil
  | cons c cs ih =>
      rw [List.all_cons, Bool.and_eq_true] at h
      obtain ⟨quote, backslash, control⟩ := of_decide_eq_true h.1
      exact .cons (.plain quote backslash control) (ih h.2)

theorem quotes_self {text : String} (h : text.toList.all isOrdinary) :
    Quotes text ('"' :: (text.toList ++ ['"'])) := by
  have hquotes := Quotes.mk (spellsChars_self h)
  rwa [String.ofList_toList] at hquotes

/-! Numbers. -/

structure IsDigits (text : List Char) : Prop where
  ne_nil : text ≠ []
  all : AllDigits text

inductive SpellsFraction : Option (List Char) → List Char → Prop
  | none : SpellsFraction none []
  | some {digits : List Char} (h : IsDigits digits) : SpellsFraction (some digits) ('.' :: digits)

inductive SpellsExponent : Option (Bool × List Char) → List Char → Prop
  | none : SpellsExponent none []
  | some {negative : Bool} {mark : Char} {sign digits : List Char} (hmark : mark = 'e' ∨ mark = 'E')
      (hsign : sign = ['-'] ∧ negative = true ∨ (sign = ['+'] ∨ sign = []) ∧ negative = false)
      (h : IsDigits digits) : SpellsExponent (some (negative, digits)) (mark :: (sign ++ digits))

inductive SpellsNumber : NumberText → List Char → Prop
  | mk {negative : Bool} {whole fractionText exponentText : List Char}
      {fraction : Option (List Char)} {exponent : Option (Bool × List Char)}
      (hwhole : IsDigits whole) (zero : whole.head? = some '0' → whole.length = 1)
      (hfraction : SpellsFraction fraction fractionText)
      (hexponent : SpellsExponent exponent exponentText) :
      SpellsNumber ⟨negative, whole, fraction, exponent⟩
        ((if negative then ['-'] else []) ++ (whole ++ (fractionText ++ exponentText)))

/-! Values. -/

/-- Items with commas between them, and white space around items and commas. The items are
those from the first on, or those that follow another one. -/
inductive Separated {α : Type} (spells : α → List Char → Prop) : Bool → List α → List Char → Prop
  | nil {first : Bool} {blank : List Char} (h : Blank blank) : Separated spells first [] blank
  | first {item : α} {items : List α} {before text more : List Char} (hbefore : Blank before)
      (head : spells item text) (tail : Separated spells false items more) :
      Separated spells true (item :: items) (before ++ (text ++ more))
  | next {item : α} {items : List α} {after before text more : List Char} (hafter : Blank after)
      (hbefore : Blank before) (head : spells item text)
      (tail : Separated spells false items more) :
      Separated spells false (item :: items) (after ++ ',' :: (before ++ (text ++ more)))

inductive SpellsMember (spells : Document → List Char → Prop) :
    String × Document → List Char → Prop
  | mk {name : String} {value : Document} {key after before text : List Char}
      (hkey : Quotes name key) (hafter : Blank after) (hbefore : Blank before)
      (hvalue : spells value text) :
      SpellsMember spells (name, value) (key ++ (after ++ ':' :: (before ++ text)))

/-- The texts of a document, without white space around them. -/
inductive Spells : Document → List Char → Prop
  | null : Spells .null ['n', 'u', 'l', 'l']
  | true : Spells (.boolean true) ['t', 'r', 'u', 'e']
  | false : Spells (.boolean false) ['f', 'a', 'l', 's', 'e']
  | number {literal : NumberText} {text : List Char} (h : SpellsNumber literal text) :
      Spells (.number literal) text
  | string {value : String} {text : List Char} (h : Quotes value text) : Spells (.string value) text
  | array {items : List Document} {text : List Char} (h : Separated Spells Bool.true items text) :
      Spells (.array items) ('[' :: (text ++ [']']))
  | object {members : List (String × Document)} {text : List Char}
      (h : Separated (SpellsMember Spells) Bool.true members text) :
      Spells (.object members) ('\x7b' :: (text ++ ['\x7d']))

/-! Order. -/

inductive ReorderedMember (reordered : Document → Document → Prop) :
    String × Document → String × Document → Prop
  | mk (name : String) {value value' : Document} (h : reordered value value') :
      ReorderedMember reordered (name, value) (name, value')

/-- Documents that differ at most in the order of members, of any objects in them. -/
inductive Reordered : Document → Document → Prop
  | refl (document : Document) : Reordered document document
  | array {items items' : List Document} (h : List.Forall₂ Reordered items items') :
      Reordered (.array items) (.array items')
  | object {members members' ordered : List (String × Document)}
      (h : List.Forall₂ (ReorderedMember Reordered) members members')
      (horder : members'.Perm ordered) : Reordered (.object members) (.object ordered)

/-! The first character of a text. -/

/-- The characters that the texts of a document can begin with. -/
inductive Document.BeginsWith : Document → Char → Prop
  | null : BeginsWith .null 'n'
  | true : BeginsWith (.boolean true) 't'
  | false : BeginsWith (.boolean false) 'f'
  | number (literal : NumberText) {c : Char} (h : Read.isNumberStart c) :
      BeginsWith (.number literal) c
  | string (value : String) : BeginsWith (.string value) '"'
  | array (items : List Document) : BeginsWith (.array items) '['
  | object (members : List (String × Document)) : BeginsWith (.object members) '\x7b'

theorem Quotes.begins {value : String} {text : List Char} (h : Quotes value text) :
    ∃ tail, text = '"' :: tail := by
  obtain ⟨-⟩ := h
  exact ⟨_, rfl⟩

theorem SpellsNumber.begins {literal : NumberText} {text : List Char}
    (h : SpellsNumber literal text) : ∃ c tail, text = c :: tail ∧ Read.isNumberStart c := by
  cases h with
  | @mk negative whole fractionText exponentText fraction exponent hwhole =>
      cases negative with
      | true => exact ⟨'-', _, rfl, rfl⟩
      | false =>
          cases whole with
          | nil => exact absurd rfl hwhole.ne_nil
          | cons c cs =>
              exact ⟨c, _, rfl, by simp [Read.isNumberStart, hwhole.all c List.mem_cons_self]⟩

theorem Spells.begins {document : Document} {text : List Char} (h : Spells document text) :
    ∃ c tail, text = c :: tail ∧ document.BeginsWith c := by
  cases h with
  | null => exact ⟨_, _, rfl, .null⟩
  | true => exact ⟨_, _, rfl, .true⟩
  | false => exact ⟨_, _, rfl, .false⟩
  | @number literal text h =>
      obtain ⟨c, tail, htext, hc⟩ := h.begins
      exact ⟨c, tail, htext, .number literal hc⟩
  | @string value text h =>
      obtain ⟨tail, htext⟩ := h.begins
      exact ⟨_, tail, htext, .string value⟩
  | @array items => exact ⟨_, _, rfl, .array items⟩
  | @object members => exact ⟨_, _, rfl, .object members⟩

theorem Document.BeginsWith.visible {document : Document} {c : Char} (h : document.BeginsWith c) :
    Read.isSpace c = Bool.false ∧ c ≠ ']' := by
  cases h with
  | number literal h =>
      constructor
      · rw [Bool.eq_false_iff]
        intro hspace
        simp only [Read.isSpace, Bool.or_eq_true, beq_iff_eq] at hspace
        obtain ((rfl | rfl) | rfl) | rfl := hspace <;> cases h
      · rintro rfl
        cases h
  | _ => decide

/-- The whole text of a document. -/
inductive Writes : Document → String → Prop
  | mk {document : Document} {before text after : List Char} (hbefore : Blank before)
      (h : Spells document text) (hafter : Blank after) :
      Writes document (String.ofList (before ++ (text ++ after)))

end GnssFusion.Json
