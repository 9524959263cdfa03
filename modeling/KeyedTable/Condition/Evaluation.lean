import KeyedTable.Condition.Placeholder
import KeyedTable.Item

namespace KeyedTable

def textOrder (a b : String) : Ordering := if a < b then .lt else if b < a then .gt else .eq

namespace AttributeValue

def follow (value : AttributeValue) : List String → Option AttributeValue
  | [] => some value
  | segment :: rest =>
    match value with
    | .map fields => (Entries.lookup segment fields).bind (·.follow rest)
    | _ => none

/-- Two texts are in the order of their code points, two numbers in that of their doubles, and
equal truth values are equal; nothing else is comparable. -/
def order : (a b : AttributeValue) → Option Ordering
  | .string a, .string b => some (textOrder a b)
  | .number a, .number b => do (← Double.read? a).order (← Double.read? b)
  | .boolean a, .boolean b => if a = b then some .eq else none
  | _, _ => none

def size? : AttributeValue → Option Nat
  | .string text => some text.utf8ByteSize
  | .list elements => some elements.length
  | .map fields => some fields.length
  | .stringSet texts => some texts.length
  | _ => none

end AttributeValue

def Path.lookup (path : Path) (item : Item) : Option AttributeValue :=
  (item.get? path.first).bind (·.follow path.rest)

def Comparator.holds : Comparator → Ordering → Bool
  | .equal, o => o == .eq
  | .unequal, o => o != .eq
  | .less, o => o == .lt
  | .atMost, o => o != .gt
  | .greater, o => o == .gt
  | .atLeast, o => o != .lt

def Presence.holds : Presence → Option AttributeValue → Bool
  | .exists, value => value.isSome
  | .notExists, value => value.isNone

def occursIn (part : List Char) : List Char → Bool
  | [] => part.isEmpty
  | c :: cs => part.isPrefixOf (c :: cs) || occursIn part cs

def Feature.holds : Feature → AttributeValue → Literal → Bool
  | .hasType, value, .string name => value.tag == name
  | .beginsWith, .string text, .string start => start.toList.isPrefixOf text.toList
  | .contains, .string text, .string part => occursIn part.toList text.toList
  | .contains, .list elements, argument =>
    elements.any fun element => element.order argument.toValue == some .eq
  | .contains, .stringSet texts, .string part => texts.contains part
  | _, _, _ => false

namespace Condition

def compares (comparator : Comparator) (order : Option Ordering) : Bool :=
  order.any comparator.holds

def holds (condition : Condition) (item : Item) : Bool :=
  match condition with
  | .compare path comparator value =>
    (path.lookup item).any fun v => compares comparator (v.order value.toValue)
  | .between path low high =>
    (path.lookup item).any fun v =>
      compares .atLeast (v.order low.toValue) && compares .atMost (v.order high.toValue)
  | .among path first others =>
    (path.lookup item).any fun v =>
      (first :: others).any fun candidate => compares .equal (v.order candidate.toValue)
  | .presence test path => test.holds (path.lookup item)
  | .feature test path argument => (path.lookup item).any fun v => test.holds v argument
  | .size path comparator value =>
    match (path.lookup item).bind AttributeValue.size?, value with
    | some n, .number text =>
      compares comparator ((Double.read? text).bind (Double.ofNat n).order)
    | _, _ => false
  | .join .and left right => left.holds item && right.holds item
  | .join .or left right => left.holds item || right.holds item
  | .group inner => inner.holds item

end Condition

end KeyedTable
