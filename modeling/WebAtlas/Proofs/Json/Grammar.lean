import WebAtlas.Json.Reader
import WebAtlas.Proofs.Text.Scan

/-! # The grammar of JSON

Which texts spell a value, apart from any reader, with no bound on how deep containers nest. A text that
nests too deep for a reader is one where all that comes before the container in question is in order.
-/
namespace WebAtlas.Json
variable {α : Type} {spells : α → List Char → Prop} {value : α} {values : List α}
  {text before inside : List Char} {v : Parsed} {depth : Nat}

/-- What may stand between the parts of a text. -/
def Layout (text : List Char) : Prop := ∀ c ∈ text, isLayout c = true

/-- The inside of a string, with the code units that it stands for. -/
inductive Units : List Nat → List Char → Prop
  | nil : Units [] []
  | plain {c : Char} {units : List Nat} {text : List Char} (hquote : c ≠ '"') (hslash : c ≠ '\\')
    (hcontrol : 0x20 ≤ c.toNat) (h : Units units text) : Units (c.toNat :: units) (c :: text)
  | letter {e value : Char} {units : List Nat} {text : List Char} (he : escapeValue? e = some value)
    (h : Units units text) : Units (value.toNat :: units) ('\\' :: e :: text)
  | code {a b c d : Char} {i j k l : Nat} {units : List Nat} {text : List Char}
    (ha : hexValue? a = some i) (hb : hexValue? b = some j) (hc : hexValue? c = some k)
    (hd : hexValue? d = some l) (h : Units units text) :
    Units ((((i * 16 + j) * 16 + k) * 16 + l) :: units) ('\\' :: 'u' :: a :: b :: c :: d :: text)

def Quoted (value : CodePoints) (text : List Char) : Prop :=
  ∃ units inside, Units units inside ∧ value = ⟨joinUnits units⟩ ∧
    text = '"' :: (inside ++ ['"'])

def Digits (text : List Char) : Prop := text ≠ [] ∧ ∀ c ∈ text, c.isDigit = true

def Minus (text : List Char) : Prop := text = [] ∨ text = ['-']

/-- The digits before a fraction, of which the first is no zero unless it is the only one. -/
def Whole (text : List Char) : Prop := text = ['0'] ∨ Digits text ∧ text.head? ≠ some '0'

def Fraction (text : List Char) : Prop := text = [] ∨ ∃ digits, Digits digits ∧ text = '.' :: digits

def Exponent (text : List Char) : Prop :=
  text = [] ∨ ∃ e sign digits, (e = 'e' ∨ e = 'E') ∧ (sign = [] ∨ sign = ['+'] ∨ sign = ['-']) ∧
    Digits digits ∧ text = e :: (sign ++ digits)

/-- A number; one without fraction and exponent is an integer, of at most so many digits. -/
inductive Number : Parsed → List Char → Prop
  | integer {sign whole : List Char} (hs : Minus sign) (hw : Whole whole)
    (hl : whole.length ≤ digitLimit) :
    Number (.int (if sign.isEmpty then digitsValue whole else -digitsValue whole)) (sign ++ whole)
  | decimal {sign whole fraction exponent : List Char} (hs : Minus sign) (hw : Whole whole)
    (hf : Fraction fraction) (he : Exponent exponent) (hne : fraction ≠ [] ∨ exponent ≠ []) :
    Number (.decimal (String.ofList (sign ++ whole ++ fraction ++ exponent)))
      (sign ++ whole ++ fraction ++ exponent)

inductive Scalar (v : Parsed) : List Char → Prop
  | word {word : String} (h : (word,v) ∈ wordValues) : Scalar v word.toList
  | number {text : List Char} (h : Number v text) : Scalar v text

inductive Atom : Parsed → List Char → Prop
  | string {value : CodePoints} {text : List Char} (h : Quoted value text) : Atom (.string value) text
  | scalar {v : Parsed} {text : List Char} (h : Scalar v text) : Atom v text

/-- A part with what may stand around it. -/
def Padded (spells : α → List Char → Prop) (value : α) (text : List Char) : Prop :=
  ∃ before inner after, Layout before ∧ spells value inner ∧ Layout after ∧
    text = before ++ (inner ++ after)

/-- One part or more, with commas in between. -/
inductive Parts (spells : α → List Char → Prop) : List α → List Char → Prop
  | last {value : α} {text : List Char} (h : Padded spells value text) : Parts spells [value] text
  | more {value : α} {values : List α} {text behind : List Char} (h : Padded spells value text)
    (hmore : Parts spells values behind) : Parts spells (value :: values) (text ++ ',' :: behind)

def Bracketed (opening close : Char) (spells : α → List Char → Prop) (values : List α)
    (text : List Char) : Prop :=
  ∃ inside, (values = [] ∧ Layout inside ∨ Parts spells values inside) ∧
    text = opening :: (inside ++ [close])

def Named (kind : List Char → Prop) (name : CodePoints) (text : List Char) : Prop :=
  ∃ written after before value, Quoted name written ∧ Layout after ∧ Layout before ∧ kind value ∧
    text = written ++ (after ++ ':' :: (before ++ value))

def Member (spells : Parsed → List Char → Prop) (m : CodePoints × Parsed) : List Char → Prop :=
  Named (spells m.2) m.1

/-- A text that spells a value with containers at most `depth` deep. -/
def Spells : Nat → Parsed → List Char → Prop
  | 0, v, text => Atom v text
  | depth + 1, v, text => Atom v text ∨
    (∃ items, v = .array items ∧ Bracketed '[' ']' (Spells depth) items text) ∨
    ∃ members, v = .object members ∧ Bracketed '{' '}' (Member (Spells depth)) members text

/-- A text that is one value, with layout around it. -/
def Document (v : Parsed) (text : List Char) : Prop := ∃ depth, Padded (Spells depth) v text

/-- Some parts of a container, and then the beginning of one. -/
inductive Reaches (spells : α → List Char → Prop) (begins : List Char → Prop) : List Char → Prop
  | here {before text : List Char} (hbefore : Layout before) (h : begins text) :
    Reaches spells begins (before ++ text)
  | later {value : α} {text behind : List Char} (h : Padded spells value text)
    (hlater : Reaches spells begins behind) : Reaches spells begins (text ++ ',' :: behind)

/-- A text that begins with a value in which a container opens inside `depth` others. -/
def Exceeds : Nat → List Char → Prop
  | 0, text => ∃ behind, text = '[' :: behind ∨ text = '{' :: behind
  | depth + 1, text =>
    (∃ inside, text = '[' :: inside ∧ Reaches (Spells depth) (Exceeds depth) inside) ∨
    ∃ inside, text = '{' :: inside ∧
      Reaches (Member (Spells depth)) (fun text => ∃ name, Named (Exceeds depth) name text) inside

/-- A text in which a container opens inside `room` others. -/
def TooDeep (room : Nat) (text : List Char) : Prop :=
  ∃ before value, Layout before ∧ Exceeds room value ∧ text = before ++ value

end WebAtlas.Json
