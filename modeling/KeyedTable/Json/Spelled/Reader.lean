import KeyedTable.Json.Spelled

namespace KeyedTable.Json.Spelled

def skipBlanks : List Char → List Char :=
  List.dropWhile fun c => c = ' ' || c = '\n' || c = '\t' || c = '\r'

def readText : List Char → Option (List Char × List Char)
  | [] => none
  | '"' :: rest => some ([], rest)
  | '\\' :: c :: rest => (readText rest).map fun (cs, rest) => ('\\' :: c :: cs, rest)
  | c :: rest =>
    if c = '\\' || c.toNat < 0x20 then none
    else (readText rest).map fun (cs, rest) => (c :: cs, rest)

def isNumeric (c : Char) : Bool := c.isDigit || "+-.eE".toList.contains c

def readNumber : List Char → Option (List Char × List Char)
  | [] => none
  | c :: cs =>
    if c.isDigit || c = '-' then
      some (c :: cs.takeWhile isNumeric, cs.dropWhile isNumeric)
    else none

def readScalar : List Char → Option (Spelled × List Char)
  | 'n' :: 'u' :: 'l' :: 'l' :: rest => some (.null, rest)
  | 't' :: 'r' :: 'u' :: 'e' :: rest => some (.bool true, rest)
  | 'f' :: 'a' :: 'l' :: 's' :: 'e' :: rest => some (.bool false, rest)
  | '"' :: rest => (readText rest).map fun (cs, rest) => (.text cs, rest)
  | cs => (readNumber cs).map fun (cs, rest) => (.number cs, rest)

mutual

def readValue : (fuel depth : Nat) → List Char → Option (Spelled × List Char)
  | 0, _, _ => none
  | fuel + 1, depth, cs =>
    match skipBlanks cs with
    | '[' :: rest =>
      if depth = 0 then none
      else match skipBlanks rest with
        | ']' :: rest => some (.array [], rest)
        | _ => (readElements fuel (depth - 1) rest).map fun (es, rest) => (.array es, rest)
    | '{' :: rest =>
      if depth = 0 then none
      else match skipBlanks rest with
        | '}' :: rest => some (.object [], rest)
        | _ => (readFields fuel (depth - 1) rest).map fun (fs, rest) => (.object fs, rest)
    | cs => readScalar cs

def readElements : (fuel depth : Nat) → List Char → Option (List Spelled × List Char)
  | 0, _, _ => none
  | fuel + 1, depth, cs => do
    let (value, rest) ← readValue fuel depth cs
    match skipBlanks rest with
    | ',' :: rest => (readElements fuel depth rest).map fun (es, rest) => (value :: es, rest)
    | ']' :: rest => some ([value], rest)
    | _ => none

def readFields : (fuel depth : Nat) → List Char → Option (List (List Char × Spelled) × List Char)
  | 0, _, _ => none
  | fuel + 1, depth, cs =>
    match skipBlanks cs with
    | '"' :: rest => do
      let (name, rest) ← readText rest
      match skipBlanks rest with
      | ':' :: rest =>
        let (value, rest) ← readValue fuel depth rest
        match skipBlanks rest with
        | ',' :: rest =>
          (readFields fuel depth rest).map fun (fs, rest) => ((name, value) :: fs, rest)
        | '}' :: rest => some ([(name, value)], rest)
        | _ => none
      | _ => none
    | _ => none

end

def read? (depth : Nat) (text : String) : Option Spelled :=
  let cs := text.toList
  match readValue (2 * cs.length + 1) depth cs with
  | some (value, rest) => if (skipBlanks rest).isEmpty then some value else none
  | none => none

end KeyedTable.Json.Spelled
