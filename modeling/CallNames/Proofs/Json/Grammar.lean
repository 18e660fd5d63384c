import CallNames.Proofs.Json.Reading

/-!
# The grammar of JSON texts

The grammar of the interchange format, rule by rule and apart from any reader:

* `IsDigits`, `IsNumber`: a number has no needless zeros in front, and digits wherever there is a
  point or an exponent;
* `IsCharacter`, `IsQuoted`: **a character stands for itself only if it is no quote, no backslash
  and no control character**, and else is escaped;
* `IsMark`: the six structural characters may have blanks on both sides;
* `Derives`: the phrases built from these, and `IsDocument`, a value with blanks around it. What a
  number and a string is stays open in `Derives`, so that a reader that refuses some of them has a
  grammar too (`Derives.mono`).
-/

namespace CallNames

namespace Json

/-! ## 1. Numbers -/

/-- One or more digits. -/
def IsDigits (text : List Char) : Prop := text ≠ [] ∧ ∀ c ∈ text, c.isDigit = true

/-- The digits before the point: zero, or digits that do not start with a zero. -/
def IsWhole (text : List Char) : Prop :=
  text = ['0'] ∨ IsDigits text ∧ text.head? ≠ some '0'

/-- The digits behind the point, if there are any. -/
def IsFraction (text : List Char) : Prop :=
  text = [] ∨ ∃ digits, IsDigits digits ∧ text = '.' :: digits

/-- The exponent, if there is one. -/
def IsExponent (text : List Char) : Prop :=
  text = [] ∨ ∃ mark sign digits, mark ∈ ['e', 'E'] ∧ sign ∈ [[], ['+'], ['-']] ∧ IsDigits digits ∧
    text = mark :: sign ++ digits

/-- A number: a sign, digits, a fraction and an exponent, of which only the digits must be there. -/
def IsNumber (text : List Char) : Prop :=
  ∃ sign whole fraction exponent, sign ∈ [[], ['-']] ∧ IsWhole whole ∧ IsFraction fraction ∧
    IsExponent exponent ∧ text = sign ++ whole ++ fraction ++ exponent

/-! ## 2. Strings -/

/-- A hexadecimal digit. -/
def isHex (c : Char) : Bool :=
  c.isDigit || ('a' ≤ c && c ≤ 'f') || ('A' ≤ c && c ≤ 'F')

/-- **One character of a string**: itself, or an escape. -/
inductive IsCharacter : List Char → Prop where
  | plain {c : Char} : 0x20 ≤ c.toNat → c ≠ '"' → c ≠ '\\' → IsCharacter [c]
  | letter {c : Char} : c ∈ ['"', '\\', '/', 'b', 'f', 'n', 'r', 't'] → IsCharacter ['\\', c]
  | code {c₁ c₂ c₃ c₄ : Char} : (∀ c ∈ [c₁, c₂, c₃, c₄], isHex c = true) →
      IsCharacter ['\\', 'u', c₁, c₂, c₃, c₄]

/-- A string: characters between quotes. -/
def IsQuoted (text : List Char) : Prop :=
  ∃ parts : List (List Char), (∀ part ∈ parts, IsCharacter part) ∧
    text = '"' :: parts.flatten ++ ['"']

/-! ## 3. Phrases -/

/-- A structural character, with any blanks before and behind it. -/
def IsMark (mark : Char) (text : List Char) : Prop :=
  ∃ before behind, Blank before ∧ Blank behind ∧ text = before ++ mark :: behind

/-- The phrases of the grammar: a value, a field of an object, and one or more phrases of a kind
    with commas between them. -/
inductive Phrase where
  | value
  | field
  | series (p : Phrase)

/-- **The texts of each phrase**, over what counts as a number and what as a string. -/
inductive Derives (number quoted : List Char → Prop) : Phrase → List Char → Prop where
  | null : Derives number quoted .value ['n', 'u', 'l', 'l']
  | true : Derives number quoted .value ['t', 'r', 'u', 'e']
  | false : Derives number quoted .value ['f', 'a', 'l', 's', 'e']
  | number {text : List Char} : number text → Derives number quoted .value text
  | quoted {text : List Char} : quoted text → Derives number quoted .value text
  | emptyArray {opening closing : List Char} : IsMark '[' opening → IsMark ']' closing →
      Derives number quoted .value (opening ++ closing)
  | array {opening text closing : List Char} : IsMark '[' opening →
      Derives number quoted (.series .value) text → IsMark ']' closing →
      Derives number quoted .value (opening ++ text ++ closing)
  | emptyObject {opening closing : List Char} : IsMark '{' opening → IsMark '}' closing →
      Derives number quoted .value (opening ++ closing)
  | object {opening text closing : List Char} : IsMark '{' opening →
      Derives number quoted (.series .field) text → IsMark '}' closing →
      Derives number quoted .value (opening ++ text ++ closing)
  | field {key colon text : List Char} : quoted key → IsMark ':' colon →
      Derives number quoted .value text → Derives number quoted .field (key ++ colon ++ text)
  | single {p : Phrase} {text : List Char} : Derives number quoted p text →
      Derives number quoted (.series p) text
  | more {p : Phrase} {text comma rest : List Char} : Derives number quoted p text →
      IsMark ',' comma → Derives number quoted (.series p) rest →
      Derives number quoted (.series p) (text ++ comma ++ rest)

/-- A value with any blanks around it, over what counts as a number and what as a string. -/
def IsSpaced (number quoted : List Char → Prop) (text : List Char) : Prop :=
  ∃ before value behind, Blank before ∧ Derives number quoted .value value ∧ Blank behind ∧
    text = before ++ value ++ behind

/-- **A well-formed document**: a value, with any blanks around it. -/
def IsDocument (text : List Char) : Prop := IsSpaced IsNumber IsQuoted text

variable {number quoted : List Char → Prop}

/-- A grammar with fewer numbers and strings has fewer texts. -/
theorem Derives.mono {number' quoted' : List Char → Prop} (hnumber : ∀ t, number t → number' t)
    (hquoted : ∀ t, quoted t → quoted' t) {p : Phrase} {text : List Char}
    (h : Derives number quoted p text) : Derives number' quoted' p text := by
  induction h with
  | null => exact .null
  | true => exact .true
  | false => exact .false
  | number ht => exact .number (hnumber _ ht)
  | quoted ht => exact .quoted (hquoted _ ht)
  | emptyArray hopen hclose => exact .emptyArray hopen hclose
  | array hopen _ hclose ih => exact .array hopen ih hclose
  | emptyObject hopen hclose => exact .emptyObject hopen hclose
  | object hopen _ hclose ih => exact .object hopen ih hclose
  | field hkey hcolon _ ih => exact .field (hquoted _ hkey) hcolon ih
  | single _ ih => exact .single ih
  | more _ hcomma _ ih ihrest => exact .more ih hcomma ihrest

theorem isMark_self (mark : Char) : IsMark mark [mark] :=
  ⟨[], [], blank_nil, blank_nil, rfl⟩

end Json

end CallNames
