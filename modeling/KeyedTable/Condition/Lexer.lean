import KeyedTable.Condition.Token

namespace KeyedTable.Token

def isBlank (c : Char) : Bool :=
  c = ' ' || c = '\t' || c = '\n' || c = Char.ofNat 12 || c = '\r'

def beginsWord (c : Char) : Bool := c.isAlpha || c = '_'

def continuesWord (c : Char) : Bool := c.isAlphanum || c = '_'

def beginsWithDigit (cs : List Char) : Bool := cs.head?.any Char.isDigit

def fraction : List Char → List Char × List Char
  | '.' :: cs =>
    if beginsWithDigit cs then ('.' :: cs.takeWhile Char.isDigit, cs.dropWhile Char.isDigit)
    else ([], '.' :: cs)
  | cs => ([], cs)

def exponent : List Char → List Char × List Char
  | e :: s :: cs =>
    if e = 'e' || e = 'E' then
      if s.isDigit then (e :: s :: cs.takeWhile Char.isDigit, cs.dropWhile Char.isDigit)
      else if (s = '+' || s = '-') && beginsWithDigit cs then
        (e :: s :: cs.takeWhile Char.isDigit, cs.dropWhile Char.isDigit)
      else ([], e :: s :: cs)
    else ([], e :: s :: cs)
  | cs => ([], cs)

def magnitude (cs : List Char) : List Char × List Char :=
  let whole := cs.takeWhile Char.isDigit
  let part := fraction (cs.dropWhile Char.isDigit)
  let power := exponent part.2
  (whole ++ part.1 ++ power.1, power.2)

def ofNumber (cs : List Char) : Token := .literal (.number (String.ofList cs))

def next (c : Char) (cs : List Char) : Except ExpressionFault (Token × List Char) :=
  match c, cs with
  | '=', _ => .ok (.comparator .equal, cs)
  | '.', _ => .ok (.dot, cs)
  | ',', _ => .ok (.comma, cs)
  | '(', _ => .ok (.lparen, cs)
  | ')', _ => .ok (.rparen, cs)
  | '<', '=' :: rest => .ok (.comparator .atMost, rest)
  | '<', '>' :: rest => .ok (.comparator .unequal, rest)
  | '<', _ => .ok (.comparator .less, cs)
  | '>', '=' :: rest => .ok (.comparator .atLeast, rest)
  | '>', _ => .ok (.comparator .greater, cs)
  | '"', _ =>
    match cs.dropWhile (· ≠ '"') with
    | [] => .error .unterminatedString
    | _ :: rest => .ok (.literal (.string (String.ofList (cs.takeWhile (· ≠ '"')))), rest)
  | '-', _ =>
    if beginsWithDigit cs then .ok (ofNumber ('-' :: (magnitude cs).1), (magnitude cs).2)
    else .error (.invalidCharacter '-')
  | _, _ =>
    if c.isDigit then .ok (ofNumber (magnitude (c :: cs)).1, (magnitude (c :: cs)).2)
    else if beginsWord c then
      .ok (ofWord (String.ofList (c :: cs.takeWhile continuesWord)), cs.dropWhile continuesWord)
    else .error (.invalidCharacter c)

@[simp] theorem fraction_append (cs : List Char) : (fraction cs).1 ++ (fraction cs).2 = cs := by
  unfold fraction
  split
  · split <;> simp
  · rfl

@[simp] theorem exponent_append (cs : List Char) : (exponent cs).1 ++ (exponent cs).2 = cs := by
  unfold exponent
  split
  · split
    · split
      · simp
      · split <;> simp
    · rfl
  · rfl

@[simp] theorem magnitude_append (cs : List Char) : (magnitude cs).1 ++ (magnitude cs).2 = cs := by
  simp only [magnitude, List.append_assoc, exponent_append, fraction_append]
  exact List.takeWhile_append_dropWhile

theorem length_dropWhile_le (p : Char → Bool) (cs : List Char) :
    (cs.dropWhile p).length ≤ cs.length :=
  (List.dropWhile_sublist p).length_le

theorem length_magnitude_le (cs : List Char) : (magnitude cs).2.length ≤ cs.length := by
  have h := congrArg List.length (magnitude_append cs)
  rw [List.length_append] at h
  omega

theorem length_magnitude_lt {c : Char} (cs : List Char) (h : c.isDigit) :
    (magnitude (c :: cs)).2.length < (c :: cs).length := by
  have happend := congrArg List.length (magnitude_append (c :: cs))
  have hfirst : 0 < (magnitude (c :: cs)).1.length := by
    simp [magnitude, List.takeWhile_cons_of_pos h]
  rw [List.length_append] at happend
  omega

theorem length_next_le {c : Char} {cs rest : List Char} {token : Token}
    (h : next c cs = .ok (token, rest)) : rest.length ≤ cs.length := by
  unfold next at h
  split at h
  case h_11 =>
    split at h
    · cases h
    next hd =>
      cases h
      have := length_dropWhile_le (· ≠ '"') cs
      rw [hd] at this
      exact Nat.le_of_lt this
  case h_12 =>
    split at h
    · cases h; exact length_magnitude_le cs
    · cases h
  case h_13 =>
    split at h
    next hc => cases h; exact Nat.le_of_lt_succ (length_magnitude_lt cs hc)
    next =>
      split at h
      · cases h; exact length_dropWhile_le _ cs
      · cases h
  all_goals cases h; simp

def scan : List Char → Except ExpressionFault (List Token)
  | [] => .ok []
  | c :: cs =>
    if isBlank c then scan cs
    else match h : next c cs with
      | .error fault => .error fault
      | .ok (token, rest) =>
        have := length_next_le h
        (scan rest).map (token :: ·)
termination_by cs => cs.length

end KeyedTable.Token
