import Szarp.Lib.Run
import Szarp.Probes.Search

/-!
# The probes server

`ProbesProtocol` of `probes_server.py` on one connection: request lines are parsed as they come,
and a queue of producers answers them one after the other.  The transport may pause the producer in
every write and at any other time, and resumes it when it likes.
-/

namespace Szarp
namespace Probes

open Gregorian Szbase PyText Numeral

/-- What the server meets: the cache, the pauses of the transport by the number of the write, the
clock when a write is made, the rounds granted to a loop, and the number of requests that may be
started from within each other before the interpreter runs out of stack. -/
structure Env where
  cache : SzbCache
  pauses : ℕ → Bool
  clock : ℕ → ℤ
  rounds : ℕ
  depth : ℕ

inductive Producer where
  | error (code : ℤ) (msg : List Char)
  | search (start stop direction : ℤ) (param : List Char)
  | range
  | get (p : GetProducer)

def badRequest : ℤ := 400

/-- `"ERROR %d %s\n"` -/
def errorLine (code : ℤ) (msg : List Char) : List UInt8 :=
  ascii ("ERROR ".toList ++ intText code ++ ' ' :: msg ++ ['\n'])

/-- The line of numbers that answers SEARCH or RANGE. -/
def numberLine (vs : List ℤ) : List UInt8 :=
  ascii ([' '].intercalate (vs.map intText) ++ ['\n'])

namespace Producer

variable (env : Env)

/-- `resumeProducing` of a producer that is done in one call: it writes the result, or the message
of an `SzbException`. -/
def writeResult (result : Except Exn (List ℤ)) (p : Producer) (o : Output) :
    Except Exn (Producer × Output × Bool) :=
  match result with
  | .ok vs => .ok (p, o.write (numberLine vs), true)
  | .error (.szbException message) =>
    .ok (p, o.write (errorLine badRequest message.toList), true)
  | .error e => .error e

/-- `resumeProducing`; the flag says that the producer finishes. -/
def resumeProducing (p : Producer) (o : Output) : Except Exn (Producer × Output × Bool) :=
  match p with
  | error code msg => .ok (p, o.write (errorLine code msg), true)
  | search start stop direction param =>
    writeResult ((env.cache.search env.rounds start stop direction param).map
      fun r => [r.1, r.2.1, r.2.2]) p o
  | range =>
    writeResult ((env.cache.availableRange (env.clock o.writes)).map fun r => [r.1, r.2]) p o
  | get g =>
    (g.resumeProducing env.cache env.pauses env.rounds o).map fun r => (get r.1, r.2)

end Producer

/-! ## Parsing -/

section Parse

variable (c : SzbCache)

def parseGET (line : List Char) : Except Exn Producer :=
  match splitSpace 3 line with
  | [_, start, stop, path] =>
    match int start, int stop with
    | some start, some stop =>
      if start > stop then .error .attributeError
      else (GetProducer.create c start stop path).map Producer.get
    | _, _ => .error .attributeError
  | _ => .error .valueError

def badTokens : Producer := .error badRequest "Not enough request tokens".toList

def badStart : Producer := .error badRequest "Incorrect start time".toList

def badEnd : Producer := .error badRequest "Incorrect end time".toList

def badDirection : Producer := .error badRequest "Incorrect direction".toList

def parseSEARCH (line : List Char) : Except Exn Producer :=
  match splitSpace 4 line with
  | [_, start, stop, direction, path] =>
    match int start with
    | none => .ok badStart
    | some start =>
      if start < 0 ∧ start ≠ -1 then .ok badStart
      else
        match int stop with
        | none => .ok badEnd
        | some stop =>
          if stop ≤ 0 ∧ stop ≠ -1 then .ok badEnd
          else
            match int direction with
            | none => .ok badDirection
            | some direction => do
              -- the constructor formats both times
              let _ ← formatTime start
              let _ ← formatTime stop
              return .search start stop direction path
  | _ => .ok badTokens

def parseRANGE (line : List Char) : Except Exn Producer :=
  if strip line ≠ "RANGE".toList then .error .attributeError else .ok .range

def badKind : Producer :=
  .error badRequest "Incorrect request, must be GET or SEARCH".toList

def parse (line : List Char) : Except Exn Producer :=
  let line := strip line
  if "GET ".toList.isPrefixOf line then parseGET c line
  else if "SEARCH ".toList.isPrefixOf line then parseSEARCH line
  else if "RANGE".toList.isPrefixOf line then parseRANGE line
  else .ok badKind

end Parse

/-! ## The connection -/

structure ProbesProtocol where
  requests : List Producer := []
  producer : Option Producer := none
  output : Output := {}

namespace ProbesProtocol

variable (env : Env)

/-- `nextProducer`: a producer that finishes at once starts the next one from within. -/
def nextProducer : ℕ → List Producer → Output → Except Exn ProbesProtocol
  | _, [], o => .ok { output := o }
  | 0, _ :: _, _ => .error .runtimeError
  | depth + 1, p :: requests, o => do
    let (p, o, finished) ← p.resumeProducing env o
    if finished then nextProducer depth requests o
    else return { requests, producer := some p, output := o }

def lineReceived (s : ProbesProtocol) (line : List Char) : Except Exn ProbesProtocol := do
  let p ← parse env.cache line
  let requests := s.requests ++ [p]
  match s.producer with
  | none => nextProducer env env.depth requests s.output
  | some _ => return { s with requests }

/-- The transport resumes the producer that it paused. -/
def resume (s : ProbesProtocol) : Except Exn ProbesProtocol :=
  match s.producer with
  | none => .ok s
  | some p => do
    let (p, o, finished) ← p.resumeProducing env s.output
    if finished then nextProducer env env.depth s.requests o
    else return { s with producer := some p, output := o }

/-- The transport pauses the producer. -/
def pause (s : ProbesProtocol) : ProbesProtocol :=
  { s with
    producer := s.producer.map fun
      | .get g => .get { g with paused := true }
      | p => p }

end ProbesProtocol

inductive Event where
  | line (line : List Char)
  | resume
  | pause

/-- A connection and the lines it received. -/
structure Session where
  proto : ProbesProtocol := {}
  received : List (List Char) := []

namespace Session

/-- One event; `none` when an exception leaves the server. -/
def step (env : Env) (s : Session) : Event → Option Session
  | .line line =>
    (s.proto.lineReceived env line).toOption.map fun proto => ⟨proto, s.received ++ [line]⟩
  | .resume => (s.proto.resume env).toOption.map fun proto => { s with proto }
  | .pause => some { s with proto := s.proto.pause }

end Session

end Probes
end Szarp
