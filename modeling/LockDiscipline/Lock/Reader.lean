import LockDiscipline.Lock.Expression
import LockDiscipline.Lock.Token

/-!
Reading a lock expression from the text of an annotation. The grammar is a head, `this`, a name or
a call without arguments, followed by any number of members or calls, each after a dot; no member
is called `this`.
-/

namespace LockDiscipline

namespace LockExpr

/-- Extends `e` by the elements that the tokens list, each after a dot. -/
def ofTail (e : LockExpr) : List LockToken → Except LockSyntaxError LockExpr
  | [] => .ok e
  | .dot :: .ident id :: .openParen :: .closeParen :: rest => ofTail (.invoke e id) rest
  | .dot :: .ident _ :: .openParen :: [] => .error .unclosedParenthesis
  | .dot :: .ident _ :: .openParen :: _ => .error .arguments
  | .dot :: .ident id :: rest => ofTail (.select e id) rest
  | .dot :: .this :: _ => .error .thisAsMember
  | .dot :: _ => .error .missingMember
  | _ => .error .missingDot

/-- The expression that the tokens spell. -/
def ofTokens : List LockToken → Except LockSyntaxError LockExpr
  | [] => .error .nothing
  | .this :: .openParen :: _ => .error .thisInvoked
  | .this :: rest => ofTail .this rest
  | .ident id :: .openParen :: .closeParen :: rest => ofTail (.call id) rest
  | .ident _ :: .openParen :: [] => .error .unclosedParenthesis
  | .ident _ :: .openParen :: _ => .error .arguments
  | .ident id :: rest => ofTail (.name id) rest
  | _ => .error .noHead

/-- The expression written in `text`. -/
def read (text : String) : Except LockSyntaxError LockExpr := do
  ofTokens (← LockToken.scan 0 text.toList)

end LockExpr

end LockDiscipline
