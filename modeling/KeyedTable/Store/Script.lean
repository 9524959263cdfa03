import KeyedTable.Request

namespace KeyedTable

structure Prepared where
  item : Option Item
  items : List Item
  entries : List WriteEntry
  keys : List Item
  lastKey : Option Item

def Prepared.empty : Prepared := ⟨none, [], [], [], none⟩

def Prepared.reply (prepared : Prepared) : (request : Request) → request.Reply
  | .get _ _ => prepared.item
  | .put _ => ()
  | .writeBatch _ _ => prepared.entries
  | .getBatch _ _ => ⟨prepared.items, prepared.keys⟩
  | .read _ => ⟨prepared.items, prepared.lastKey⟩

abbrev Script := List (Except Error Prepared)

def Script.answer (request : Request) : Script → Except Error request.Reply × Script
  | [] => (.ok (Prepared.empty.reply request), [])
  | .error error :: rest => (.error error, rest)
  | .ok prepared :: rest => (.ok (prepared.reply request), rest)

def Store.script : Store Script := ⟨Script.answer, List.length⟩

end KeyedTable
