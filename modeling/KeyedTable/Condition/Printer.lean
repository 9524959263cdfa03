import KeyedTable.Condition.Token

namespace KeyedTable

def Path.tokens (path : Path) : List Token :=
  .identifier path.first :: path.rest.flatMap fun segment => [.dot, .identifier segment]

def FunctionName.token (function : FunctionName) : Token := .identifier function.spelling

namespace Condition

def tokens : Condition → List Token
  | .compare path sign value => path.tokens ++ [.comparator sign, .literal value]
  | .between path low high =>
    path.tokens ++ [.keyword .between, .literal low, .keyword .and, .literal high]
  | .among path first others =>
    path.tokens ++ .keyword .among :: .lparen :: .literal first ::
      others.flatMap (fun value => [.comma, .literal value]) ++ [.rparen]
  | .presence test path =>
    (FunctionName.presence test).token :: .lparen :: path.tokens ++ [.rparen]
  | .feature test path argument =>
    (FunctionName.feature test).token :: .lparen :: path.tokens ++
      [.comma, .literal argument, .rparen]
  | .size path sign value =>
    FunctionName.size.token :: .lparen :: path.tokens ++
      [.rparen, .comparator sign, .literal value]
  | .join connective left right =>
    left.tokens ++ .keyword connective.keyword :: right.tokens
  | .group inner => .lparen :: inner.tokens ++ [.rparen]

def print (condition : Condition) : String :=
  String.intercalate " " (condition.tokens.map Token.spelling)

end Condition

end KeyedTable
