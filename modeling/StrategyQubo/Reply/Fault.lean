namespace StrategyQubo

/-! # Why a submission failed -/

inductive SubmitFault where
  /-- The body of a success is not JSON. -/
  | notJson
  /-- The JSON of a success does not have the form of a reply. -/
  | notReply
  /-- A coefficient has a key that names no pair of variables. -/
  | badKey (key : String)
  | rejected (status : Nat) (reason : String)
  deriving DecidableEq, Repr

namespace SubmitFault

def message : SubmitFault → String
  | notJson => "Malformed response: not JSON"
  | notReply => "Malformed response: not a reply"
  | badKey key => "Malformed response: bad qubo key `" ++ key ++ "`"
  | rejected status reason =>
      "Solver rejected the document (" ++ toString status ++ "): " ++ reason

/-- Whether the exchange failed, and not the document. -/
def isTransport : SubmitFault → Bool
  | rejected _ _ => false
  | _ => true

def status? : SubmitFault → Option Nat
  | rejected status _ => some status
  | _ => none

end SubmitFault

end StrategyQubo
