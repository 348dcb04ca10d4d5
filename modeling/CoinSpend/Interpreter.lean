import CoinSpend.Script

/-!
# Executing scripts

A script runs on a stack of byte strings whose head is the top.  It runs to the
end, stops early without success, or fails.  Signatures are checked by a function
from outside, and the machine keeps the list of all checks it asked for.
-/

namespace CoinSpend

/-- What a script asks of the signature checker. -/
structure SignatureCheck where
  signature : Bytes
  publicKey : Bytes
  /-- The script that asks. -/
  scriptCode : Script
  deriving DecidableEq

/-- Decides signature checks. -/
abbrev SignatureChecker := SignatureCheck → Except Error Bool

/-- The stack, top first, and the checks asked for so far, oldest first. -/
structure Machine where
  stack : List Bytes
  checks : List SignatureCheck
  deriving DecidableEq

/-- The greatest depth of the stack after an element. -/
def Machine.maxDepth : Nat := 1000

/-- Whether a byte string counts as true: it is not zero in little-endian
sign-and-magnitude form. -/
def truthy : Bytes → Bool
  | [] => false
  | [last] => last != 0 && last != 0x80
  | byte :: rest => byte != 0 || truthy rest

/-- The byte string that an operation leaves for a truth value. -/
def truthBytes (truth : Bool) : Bytes :=
  if truth then [1] else []

/-- How an execution ends, and the machine it leaves. -/
abbrev Outcome := Except Error Bool × Machine

namespace Machine

def push (machine : Machine) (item : Bytes) : Machine :=
  { machine with stack := item :: machine.stack }

/-- Execute one operation.  One that lacks operands stops the script and leaves
the stack as it was. -/
def executeOp (checker : SignatureChecker) (scriptCode : Script)
    (machine : Machine) (code : Opcode) : Outcome :=
  match code, machine.stack with
  | .dup, top :: _ => (.ok true, machine.push top)
  | .hash160, top :: rest =>
      (.ok true, { machine with stack := (hash160 top).toBytes :: rest })
  | .equal, second :: first :: rest =>
      (.ok true,
        { machine with stack := truthBytes (first == second) :: rest })
  | .equalVerify, second :: first :: rest =>
      (.ok (first == second), { machine with stack := rest })
  | .checkSig, publicKey :: signature :: rest =>
      let check := SignatureCheck.mk signature publicKey scriptCode
      let asked := Machine.mk rest (machine.checks ++ [check])
      match checker check with
      | .ok valid => (.ok true, asked.push (truthBytes valid))
      | .error error => (.error error, asked)
  | .other byte, _ => (.error (.script (.unsupportedOpcode byte)), machine)
  | _, _ => (.ok false, machine)

/-- Execute one element. -/
def execute (checker : SignatureChecker) (scriptCode : Script)
    (machine : Machine) : ScriptElement → Outcome
  | .push data =>
      if Script.maxPushSize < data.length then
        (.error (.script (.pushSize data.length)), machine)
      else (.ok true, machine.push data)
  | .op code => executeOp checker scriptCode machine code

/-- Execute elements until one does not succeed.  The depth of the stack is
examined after each success. -/
def run (checker : SignatureChecker) (scriptCode : Script) :
    Machine → List ScriptElement → Outcome
  | machine, [] => (.ok true, machine)
  | machine, element :: elements =>
      match execute checker scriptCode machine element with
      | (.ok true, next) =>
          if maxDepth < next.stack.length then
            (.error (.script .stackOverflow), next)
          else run checker scriptCode next elements
      | stopped => stopped

/-- Execute a script.  One that is too long or does not parse fails before its
first element. -/
def eval (checker : SignatureChecker) (machine : Machine) (script : Script) :
    Outcome :=
  if Script.maxSize < script.size then
    (.error (.script (.scriptSize script.size)), machine)
  else
    match script.elements with
    | .error error => (.error error, machine)
    | .ok elements => run checker script machine elements

/-- Whether the top of the stack is there and counts as true. -/
def verdict (machine : Machine) : Bool :=
  match machine.stack with
  | [] => false
  | top :: _ => truthy top

end Machine

/-- Whether an unlocking script satisfies a locking script, and the checks that
were asked for on the way. -/
def runScripts (checker : SignatureChecker) (unlocking locking : Script) :
    Outcome :=
  let start := Machine.mk [] []
  if unlocking.isPushOnly then
    match start.eval checker unlocking with
    | (.ok true, unlocked) =>
        match unlocked.eval checker locking with
        | (.ok true, final) => (.ok final.verdict, final)
        | stopped => stopped
    | stopped => stopped
  else (.error (.script .unlockingNotPushOnly), start)

/-- Whether an unlocking script satisfies a locking script. -/
def verifyScripts (checker : SignatureChecker) (unlocking locking : Script) :
    Except Error Bool :=
  (runScripts checker unlocking locking).1

end CoinSpend
