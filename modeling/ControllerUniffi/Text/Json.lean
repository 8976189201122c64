import Mathlib.Data.List.Basic
import ControllerUniffi.Text.Basic
import ControllerUniffi.Text.Hex

/-!
# JSON

The JSON texts made of strings, arrays and objects (RFC 8259): the compact writer and a parser.  The key fact:
parsing a written value gives the value back (`parse_write`), for strings of any characters.
-/

namespace Text

inductive Json where
  | str (s : List Char)
  | arr (elements : List Json)
  | obj (members : List (List Char × Json))

namespace Json

/-- The characters after a backslash that stand for one character. -/
def shortEscape (e : Char) : Option Char :=
  if e = '"' then some '"'
  else if e = '\\' then some '\\'
  else if e = '/' then some '/'
  else if e = 'b' then some '\x08'
  else if e = 'f' then some '\x0c'
  else if e = 'n' then some '\n'
  else if e = 'r' then some '\r'
  else if e = 't' then some '\t'
  else none

/-- A character inside a string: the quote, the backslash and the control characters are escaped. -/
def writeChar (c : Char) : List Char :=
  if c = '"' then ['\\', '"']
  else if c = '\\' then ['\\', '\\']
  else if c = '\x08' then ['\\', 'b']
  else if c = '\x0c' then ['\\', 'f']
  else if c = '\n' then ['\\', 'n']
  else if c = '\r' then ['\\', 'r']
  else if c = '\t' then ['\\', 't']
  else if c.toNat < 0x20 then '\\' :: 'u' :: paddedHex 4 c.toNat
  else [c]

def writeString (s : List Char) : List Char := '"' :: s.flatMap writeChar ++ ['"']

mutual

/-- The compact text of a value. -/
def write : Json → List Char
  | .str s => writeString s
  | .arr [] => ['[', ']']
  | .arr (v :: l) => '[' :: write v ++ writeElements l
  | .obj [] => ['{', '}']
  | .obj ((k, v) :: l) => '{' :: writeString k ++ ':' :: write v ++ writeMembers l

/-- The elements after the first, with the closing bracket. -/
def writeElements : List Json → List Char
  | [] => [']']
  | v :: l => ',' :: write v ++ writeElements l

/-- The members after the first, with the closing brace. -/
def writeMembers : List (List Char × Json) → List Char
  | [] => ['}']
  | (k, v) :: l => ',' :: writeString k ++ ':' :: write v ++ writeMembers l

end

def skipWs (s : List Char) : List Char := s.dropWhile fun c => c = ' ' ∨ c = '\t' ∨ c = '\n' ∨ c = '\r'

private def push (c : Char) (p : List Char × List Char) : List Char × List Char := (c :: p.1, p.2)

/-- The rest of a string after its opening quote: its characters and the text behind the closing quote. -/
def parseString : List Char → Option (List Char × List Char)
  | [] => none
  | [c] => if c = '"' then some ([], []) else none
  | c :: e :: r =>
    if c = '"' then some ([], e :: r)
    else if c = '\\' then
      match shortEscape e with
      | some d => (parseString r).map (push d)
      | none =>
        if e = 'u' then
          match r with
          | a₁ :: a₂ :: a₃ :: a₄ :: r =>
            match hexValue [a₁, a₂, a₃, a₄] with
            | some n =>
              if n < 0xD800 ∨ 0xDFFF < n then (parseString r).map (push (Char.ofNat n))
              else
                match r with
                | '\\' :: 'u' :: b₁ :: b₂ :: b₃ :: b₄ :: r =>
                  match hexValue [b₁, b₂, b₃, b₄] with
                  | some m =>
                    if n < 0xDC00 ∧ 0xDC00 ≤ m ∧ m ≤ 0xDFFF then
                      (parseString r).map (push (Char.ofNat (0x10000 + (n - 0xD800) * 0x400 + (m - 0xDC00))))
                    else none
                  | none => none
                | _ => none
            | none => none
          | _ => none
        else none
    else if c.toNat < 0x20 then none
    else (parseString (e :: r)).map (push c)

/-- A member's key and the colon behind it. -/
def parseKey (s : List Char) : Option (List Char × List Char) :=
  match skipWs s with
  | '"' :: r =>
    (parseString r).bind fun (k, r) =>
      match skipWs r with
      | ':' :: t => some (k, t)
      | _ => none
  | _ => none

/-- The text behind the closing character `c`, if it comes next. -/
def closed (c : Char) (s : List Char) : Option (List Char) :=
  match skipWs s with
  | d :: r => if d = c then some r else none
  | [] => none

mutual

/-- One value at the start of a text, with the text behind it.  `fuel` bounds the number of nested calls. -/
def parseValue : Nat → List Char → Option (Json × List Char)
  | 0, _ => none
  | fuel + 1, s =>
    match skipWs s with
    | '"' :: r => (parseString r).map fun p => (.str p.1, p.2)
    | '[' :: r =>
      match closed ']' r with
      | some t => some (.arr [], t)
      | none => (parseElements fuel r).map fun p => (.arr p.1, p.2)
    | '{' :: r =>
      match closed '}' r with
      | some t => some (.obj [], t)
      | none => (parseMembers fuel r).map fun p => (.obj p.1, p.2)
    | _ => none

/-- The elements of a nonempty array, up to its closing bracket. -/
def parseElements : Nat → List Char → Option (List Json × List Char)
  | 0, _ => none
  | fuel + 1, s =>
    (parseValue fuel s).bind fun (v, r) =>
      match skipWs r with
      | ',' :: t => (parseElements fuel t).map fun p => (v :: p.1, p.2)
      | ']' :: t => some ([v], t)
      | _ => none

/-- The members of a nonempty object, up to its closing brace. -/
def parseMembers : Nat → List Char → Option (List (List Char × Json) × List Char)
  | 0, _ => none
  | fuel + 1, s =>
    (parseKey s).bind fun (k, r) =>
      (parseValue fuel r).bind fun (v, r) =>
        match skipWs r with
        | ',' :: t => (parseMembers fuel t).map fun p => ((k, v) :: p.1, p.2)
        | '}' :: t => some ([(k, v)], t)
        | _ => none

end

/-- The value a JSON text denotes. -/
def parse (s : List Char) : Option Json :=
  match parseValue (s.length + 1) s with
  | some (v, r) => if skipWs r = [] then some v else none
  | none => none

/-! ### Strings -/

private theorem parseString_push {c e : Char} {r : List Char} (hq : c ≠ '"') (hb : c ≠ '\\')
    (hc : ¬ c.toNat < 0x20) : parseString (c :: e :: r) = (parseString (e :: r)).map (push c) := by
  rw [parseString.eq_def]
  simp only [hq, hb, hc, ↓reduceIte]

/-- A `\u` escape of a code point outside the surrogates. -/
private theorem parseString_unicode {a₁ a₂ a₃ a₄ : Char} {r : List Char} {n : Nat}
    (h : hexValue [a₁, a₂, a₃, a₄] = some n) (hn : n < 0xD800) :
    parseString ('\\' :: 'u' :: a₁ :: a₂ :: a₃ :: a₄ :: r) = (parseString r).map (push (Char.ofNat n)) := by
  have hu : shortEscape 'u' = none := rfl
  rw [parseString.eq_def]
  simp only [hu, h, hn, true_or, ↓reduceIte, Char.reduceEq]

private theorem parseString_short {e d : Char} {r : List Char} (h : shortEscape e = some d) :
    parseString ('\\' :: e :: r) = (parseString r).map (push d) := by
  rw [parseString.eq_def]
  simp only [h, ↓reduceIte, Char.reduceEq]

/-- A written character is read back, whatever string follows. -/
private theorem parseString_writeChar (c e : Char) (r : List Char) :
    parseString (writeChar c ++ e :: r) = (parseString (e :: r)).map (push c) := by
  unfold writeChar
  by_cases hq : c = '"'
  · subst hq; exact parseString_short rfl
  by_cases hb : c = '\\'
  · subst hb; exact parseString_short rfl
  by_cases h8 : c = '\x08'
  · subst h8; exact parseString_short rfl
  by_cases hf : c = '\x0c'
  · subst hf; exact parseString_short rfl
  by_cases hn : c = '\n'
  · subst hn; exact parseString_short rfl
  by_cases hr : c = '\r'
  · subst hr; exact parseString_short rfl
  by_cases ht : c = '\t'
  · subst ht; exact parseString_short rfl
  simp only [hq, hb, h8, hf, hn, hr, ht, ↓reduceIte]
  split
  · -- a control character is written as four digits
    rename_i hlt
    have hlen : (paddedHex 4 c.toNat).length = 4 := length_paddedHex (by decide) (by omega)
    obtain ⟨a₁, a₂, a₃, a₄, hp⟩ : ∃ a₁ a₂ a₃ a₄, paddedHex 4 c.toNat = [a₁, a₂, a₃, a₄] :=
      List.length_eq_four.1 hlen
    have hval : hexValue [a₁, a₂, a₃, a₄] = some c.toNat := by rw [← hp, hexValue_paddedHex]
    rw [hp]
    show parseString ('\\' :: 'u' :: a₁ :: a₂ :: a₃ :: a₄ :: e :: r) = _
    rw [parseString_unicode hval (by omega), Char.ofNat_toNat]
  · rename_i hlt
    exact parseString_push hq hb hlt

/-- A written string is read back up to its closing quote. -/
private theorem parseString_written (s r : List Char) :
    parseString (s.flatMap writeChar ++ '"' :: r) = some (s, r) := by
  induction s with
  | nil =>
    cases r with
    | nil => rfl
    | cons e r => rw [List.flatMap_nil, List.nil_append, parseString.eq_def]; rfl
  | cons c s ih =>
    obtain ⟨e, t, ht⟩ : ∃ e t, s.flatMap writeChar ++ '"' :: r = e :: t := List.exists_cons_of_ne_nil (by simp)
    rw [List.flatMap_cons, List.append_assoc, ht, parseString_writeChar, ← ht, ih]
    rfl

/-! ### Values -/

private theorem skipWs_cons {c : Char} (h : c ∉ [' ', '\t', '\n', '\r']) (r : List Char) : skipWs (c :: r) = c :: r := by
  simp only [List.mem_cons, List.not_mem_nil, or_false, not_or] at h
  simp [skipWs, h]

/-- A written value starts with a character that tells its kind. -/
private theorem write_head (v : Json) : ∃ c t, write v = c :: t ∧ c ∈ ['"', '[', '{'] := by
  match v with
  | .str s => exact ⟨'"', _, rfl, by decide⟩
  | .arr [] => exact ⟨'[', _, rfl, by decide⟩
  | .arr (v :: l) => exact ⟨'[', write v ++ writeElements l, by simp [write], by decide⟩
  | .obj [] => exact ⟨'{', _, rfl, by decide⟩
  | .obj ((k, v) :: l) =>
    exact ⟨'{', writeString k ++ ':' :: write v ++ writeMembers l, by simp [write], by decide⟩

private theorem skipWs_write (v : Json) (r : List Char) : skipWs (write v ++ r) = write v ++ r := by
  obtain ⟨c, t, h, hc⟩ := write_head v
  have hws : ∀ c ∈ ['"', '[', '{'], c ∉ [' ', '\t', '\n', '\r'] := forall_mem_of_all (by decide)
  rw [h, List.cons_append, skipWs_cons (hws c hc)]

private theorem length_write_pos (v : Json) : 0 < (write v).length := by
  obtain ⟨c, t, h, _⟩ := write_head v
  simp [h]

private theorem parseKey_written (k r : List Char) : parseKey (writeString k ++ ':' :: r) = some (k, r) := by
  have hskip : skipWs (writeString k ++ ':' :: r) = '"' :: (k.flatMap writeChar ++ '"' :: ':' :: r) := by
    simp [writeString, skipWs_cons]
  rw [parseKey, hskip]
  simp [parseString_written, skipWs_cons]

/-- What the parser does at the first character that is not whitespace. -/
private theorem parseValue_quote {fuel : Nat} {s r : List Char} (h : skipWs s = '"' :: r) :
    parseValue (fuel + 1) s = (parseString r).map fun p => (.str p.1, p.2) := by
  rw [parseValue, h]
  rfl

private theorem parseValue_bracket {fuel : Nat} {s r : List Char} (h : skipWs s = '[' :: r)
    (hr : closed ']' r = none) :
    parseValue (fuel + 1) s = (parseElements fuel r).map fun p => (.arr p.1, p.2) := by
  rw [parseValue, h]
  simp only [hr]

private theorem parseValue_brace {fuel : Nat} {s r : List Char} (h : skipWs s = '{' :: r)
    (hr : closed '}' r = none) :
    parseValue (fuel + 1) s = (parseMembers fuel r).map fun p => (.obj p.1, p.2) := by
  rw [parseValue, h]
  simp only [hr]

private theorem closed_write {v : Json} {r : List Char} {c : Char} (hc : c ∉ ['"', '[', '{']) :
    closed c (write v ++ r) = none := by
  obtain ⟨d, u, hd, hmem⟩ := write_head v
  have hne : d ≠ c := fun h => hc (h ▸ hmem)
  rw [closed, skipWs_write, hd, List.cons_append]
  simp only [hne, ↓reduceIte]

/-- Reading back what was written, for values, for the elements of an array and for the members of an object, by
induction on the number of nested calls. -/
private theorem parse_written (fuel : Nat) :
    (∀ v r, (write v).length ≤ fuel → parseValue fuel (write v ++ r) = some (v, r)) ∧
    (∀ v l r, (write v ++ writeElements l).length ≤ fuel →
      parseElements fuel (write v ++ (writeElements l ++ r)) = some (v :: l, r)) ∧
    (∀ k v l r, (writeString k ++ ':' :: write v ++ writeMembers l).length ≤ fuel →
      parseMembers fuel (writeString k ++ ':' :: (write v ++ (writeMembers l ++ r))) = some ((k, v) :: l, r)) := by
  induction fuel with
  | zero =>
    refine ⟨fun v r h => ?_, fun v l r h => ?_, fun k v l r h => ?_⟩
    · have := length_write_pos v; omega
    · have := length_write_pos v; simp only [List.length_append] at h; omega
    · simp [writeString] at h
  | succ fuel ih =>
    obtain ⟨ihv, ihe, ihm⟩ := ih
    refine ⟨fun v r h => ?_, fun v l r h => ?_, fun k v l r h => ?_⟩
    · match v with
      | .str s =>
        have hs : skipWs (write (.str s) ++ r) = '"' :: (s.flatMap writeChar ++ '"' :: r) := by
          rw [skipWs_write]; simp [write, writeString]
        rw [parseValue_quote hs, parseString_written]
        rfl
      | .arr [] => rw [parseValue, skipWs_write]; rfl
      | .arr (v :: l) =>
        have hs : skipWs (write (.arr (v :: l)) ++ r) = '[' :: (write v ++ (writeElements l ++ r)) := by
          rw [skipWs_write]; simp [write]
        simp only [write, List.length_cons, List.cons_append] at h
        rw [parseValue_bracket hs (closed_write (by decide)), ihe v l r (by omega)]
        rfl
      | .obj [] => rw [parseValue, skipWs_write]; rfl
      | .obj ((k, v) :: l) =>
        have hs : skipWs (write (.obj ((k, v) :: l)) ++ r) =
            '{' :: (writeString k ++ ':' :: (write v ++ (writeMembers l ++ r))) := by
          rw [skipWs_write]; simp [write]
        have hk : closed '}' (writeString k ++ ':' :: (write v ++ (writeMembers l ++ r))) = none := by
          simp [closed, writeString, skipWs_cons]
        simp only [write, List.length_cons, List.cons_append] at h
        rw [parseValue_brace hs hk, ihm k v l r (by simpa using h)]
        rfl
    · rw [parseElements, ihv v _ (by cases l <;> simp [writeElements] at h <;> omega), Option.bind_some]
      cases l with
      | nil => rfl
      | cons w l =>
        simp only [writeElements, List.length_append, List.length_cons] at h
        have hlen : (write w ++ writeElements l).length ≤ fuel := by
          simp only [List.length_append]
          have := length_write_pos v
          omega
        simp [writeElements, skipWs_cons, ihe w l r hlen]
    · rw [parseMembers, parseKey_written, Option.bind_some]
      dsimp only
      rw [ihv v _ (by simp [writeString] at h; omega), Option.bind_some]
      cases l with
      | nil => rfl
      | cons w l =>
        obtain ⟨k', w⟩ := w
        simp only [writeMembers, List.length_append, List.length_cons] at h
        have hlen : (writeString k' ++ ':' :: write w ++ writeMembers l).length ≤ fuel := by
          simp only [List.length_append, List.length_cons]
          omega
        simp [writeMembers, skipWs_cons, ihm k' w l r hlen]

/-- Parsing the text of a value gives the value back. -/
theorem parse_write (v : Json) : parse (write v) = some v := by
  have h := (parse_written ((write v).length + 1)).1 v [] (by omega)
  rw [List.append_nil] at h
  rw [parse, h]
  rfl

end Json

end Text
