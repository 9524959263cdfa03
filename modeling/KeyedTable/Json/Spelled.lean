namespace KeyedTable.Json

inductive Spelled
  | null
  | bool (value : Bool)
  | number (spelling : List Char)
  | text (spelling : List Char)
  | array (elements : List Spelled)
  | object (fields : List (List Char × Spelled))
  deriving Inhabited

namespace Spelled

mutual

def depth : Spelled → Nat
  | .array elements => depthOfElements elements + 1
  | .object fields => depthOfFields fields + 1
  | _ => 0

def depthOfElements : List Spelled → Nat
  | [] => 0
  | element :: rest => max element.depth (depthOfElements rest)

def depthOfFields : List (List Char × Spelled) → Nat
  | [] => 0
  | (_, value) :: rest => max value.depth (depthOfFields rest)

end

mutual

def allNumbers (accepts : List Char → Bool) : Spelled → Bool
  | .number spelling => accepts spelling
  | .array elements => allNumbersOfElements accepts elements
  | .object fields => allNumbersOfFields accepts fields
  | _ => true

def allNumbersOfElements (accepts : List Char → Bool) : List Spelled → Bool
  | [] => true
  | element :: rest => element.allNumbers accepts && allNumbersOfElements accepts rest

def allNumbersOfFields (accepts : List Char → Bool) : List (List Char × Spelled) → Bool
  | [] => true
  | (_, value) :: rest => value.allNumbers accepts && allNumbersOfFields accepts rest

end

def hexValue? (c : Char) : Option Nat :=
  if c.isDigit then some (c.toNat - '0'.toNat)
  else if 'a' ≤ c && c ≤ 'f' then some (c.toNat - 'a'.toNat + 10)
  else if 'A' ≤ c && c ≤ 'F' then some (c.toNat - 'A'.toNat + 10)
  else none

def unit? (a b c d : Char) : Option Nat := do
  some ((((← hexValue? a) * 16 + (← hexValue? b)) * 16 + (← hexValue? c)) * 16 + (← hexValue? d))

def simpleEscape? : Char → Option Char
  | '"' => some '"'
  | '\\' => some '\\'
  | '/' => some '/'
  | 'b' => some (Char.ofNat 8)
  | 'f' => some (Char.ofNat 12)
  | 'n' => some '\n'
  | 'r' => some '\r'
  | 't' => some '\t'
  | _ => none

def unescape? : List Char → Option (List Char)
  | [] => some []
  | '\\' :: 'u' :: a :: b :: c :: d :: rest =>
    match unit? a b c d with
    | none => none
    | some high =>
      if 0xD800 ≤ high && high < 0xDC00 then
        match rest with
        | '\\' :: 'u' :: a :: b :: c :: d :: rest =>
          match unit? a b c d with
          | none => none
          | some low =>
            if 0xDC00 ≤ low && low < 0xE000 then
              (unescape? rest).map
                (Char.ofNat (0x10000 + (high - 0xD800) * 0x400 + (low - 0xDC00)) :: ·)
            else none
        | _ => none
      else if 0xDC00 ≤ high && high < 0xE000 then none
      else (unescape? rest).map (Char.ofNat high :: ·)
  | '\\' :: c :: rest =>
    match simpleEscape? c with
    | none => none
    | some c => (unescape? rest).map (c :: ·)
  | c :: rest => if c = '\\' then none else (unescape? rest).map (c :: ·)

def string? (spelling : List Char) : Option String := (unescape? spelling).map String.ofList

end Spelled

end KeyedTable.Json
