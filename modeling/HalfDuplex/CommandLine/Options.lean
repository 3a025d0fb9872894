import HalfDuplex.Batch.Run
import HalfDuplex.Text.Utf8

/-!
# Options on the command line

Every argument is read by itself. The scan goes from left to right and stops at
the first argument that asks for help or cannot be used; of several arguments
for one setting the last one counts.
-/

namespace HalfDuplex.CommandLine

inductive Setting where
  | prioritySend
  | priorityReceive
  | send
  | receive
  | capacity
  | tickMicros
  | seed
deriving DecidableEq

namespace Setting

def all : List Setting := [prioritySend, priorityReceive, send, receive, capacity, tickMicros, seed]

def flag : Setting → String
  | prioritySend => "--priority-send"
  | priorityReceive => "--priority-receive"
  | send => "--send"
  | receive => "--receive"
  | capacity => "--capacity"
  | tickMicros => "--tick-us"
  | seed => "--seed"

def named? (name : String) : Option Setting := all.find? fun s => s.flag == name

end Setting

inductive Refusal where
  | notText (shown : String)
  | badValue (setting : Setting) (value : String)
  | zeroCapacity
  | unknownFlag (argument : String)
  | unknownArgument (argument : String)
deriving DecidableEq

namespace Refusal

def message : Refusal → String
  | .notText shown => s!"invalid argument: {shown}"
  | .badValue s value => s!"invalid {s.flag} value: {value}"
  | .zeroCapacity => "--capacity must be >= 1"
  | .unknownFlag a => s!"unknown flag: {a}"
  | .unknownArgument a => s!"unknown argument: {a}"

def showsUsage : Refusal → Bool
  | .unknownFlag _ => true
  | .unknownArgument _ => true
  | _ => false

end Refusal

inductive Item where
  | assign (setting : Setting) (value : Nat)
  | trace
  | help
deriving DecidableEq

namespace Item

/-- Reads the argument `name=value`. -/
def ofAssignment (name value : List Char) : Except Refusal Item :=
  match Setting.named? (String.ofList name) with
  | none => .error (.unknownFlag (String.ofList (name ++ '=' :: value)))
  | some s =>
    match Word.parse? value with
    | none => .error (.badValue s (String.ofList value))
    | some n => if s = .capacity ∧ n = 0 then .error .zeroCapacity else .ok (.assign s n)

def ofWord (word : String) : Except Refusal Item :=
  if word = "--trace" then .ok .trace
  else if word = "--help" ∨ word = "-h" then .ok .help
  else .error (.unknownArgument word)

/-- Reads an argument. Its name ends at the first equals sign. -/
def ofText (cs : List Char) : Except Refusal Item :=
  match cs.dropWhile (· ≠ '=') with
  | [] => ofWord (String.ofList cs)
  | _ :: value => ofAssignment (cs.takeWhile (· ≠ '=')) value

def ofBytes (bs : List UInt8) : Except Refusal Item :=
  match Utf8.text? bs with
  | none => .error (.notText (String.ofList (Utf8.lossyText bs)))
  | some cs => ofText cs

end Item

structure Options where
  counts : Batch.Counts
  bus : Bus.Config
  batch : Batch.Config
deriving DecidableEq

namespace Options

def default : Options := ⟨PerLane.fill 0, {}, {}⟩

def assign (o : Options) (s : Setting) (n : Nat) : Options :=
  match s with
  | .prioritySend => { o with counts := o.counts.set (.priority .send) n }
  | .priorityReceive => { o with counts := o.counts.set (.priority .receive) n }
  | .send => { o with counts := o.counts.set (.normal .send) n }
  | .receive => { o with counts := o.counts.set (.normal .receive) n }
  | .capacity => { o with bus := { o.bus with capacity := n } }
  | .tickMicros => { o with batch := { o.batch with tick := Span.ofMicros n } }
  | .seed => { o with batch := { o.batch with seed := n } }

def recordTrace (o : Options) : Options := { o with bus := { o.bus with recordTrace := true } }

end Options

inductive Stop where
  | help
  | refused (refusal : Refusal)
deriving DecidableEq

def scanInto : Options → List (List UInt8) → Except Stop Options
  | o, [] => .ok o
  | o, a :: rest =>
    match Item.ofBytes a with
    | .error r => .error (.refused r)
    | .ok .help => .error .help
    | .ok .trace => scanInto o.recordTrace rest
    | .ok (.assign s n) => scanInto (o.assign s n) rest

def scan (args : List (List UInt8)) : Except Stop Options := scanInto Options.default args

end HalfDuplex.CommandLine
