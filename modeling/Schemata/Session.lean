import Schemata.Document

/-!
# Sessions

A session keeps one resolver and all diagnostics that were recorded, and answers one action after
the other. Actions may change the definitions, the configuration, and whether recoverable problems
are fatal; what was recorded stays.
-/

namespace Schemata

/-- What a session keeps. -/
structure Session where
  definitions : List Json := []
  config : Config := {}
  /-- Whether recoverable problems are fatal. The configuration decides this only at the start. -/
  strict : Bool := config.isStrict
  /-- Everything recorded so far, in order. -/
  entries : List Diagnostic := []

namespace Session

/-- What a session can be asked to do. -/
inductive Action where
  /-- Resolve the expression that a value writes. -/
  | resolve (context : Text) (node : Json) (default? : Option Json) (parameter : Bool)
  /-- Record a recoverable problem. -/
  | error (context message : Text)
  /-- Record a fatal problem. -/
  | panic (context message : Text)
  /-- Say whether recoverable problems are fatal from now on. -/
  | setStrict (strict : Bool)
  /-- Add a definition. -/
  | define (name : Json)
  /-- Remove the first definition of that name. -/
  | undefine (name : Json)
  /-- Change the configuration. -/
  | configure (fields : Fields Json)
  /-- Show the recoverable problems. -/
  | errors
  /-- Show all that was recorded. -/
  | entries

/-- What a session answers. -/
inductive Answer where
  /-- The schema and its object, or why there is none, and what was recorded for it. -/
  | resolved (result : Except Failure (Schema × Json)) (recorded : List Diagnostic)
  /-- Why it failed, if it did, and how much has been recorded in all. -/
  | reported (failure : Option Failure) (total : Nat)
  | done
  | definitions (names : List Json)
  /-- There is no definition to remove; how much has been recorded in all. -/
  | undefined (total : Nat)
  | config (config : Config)
  | diagnostics (entries : List Diagnostic)

/-- The resolver of a session. -/
def resolver (session : Session) : Resolver :=
  { definitions := .arr session.definitions, config := session.config, strict := session.strict }

/-- The session after more was recorded. -/
def record (session : Session) (entries : List Diagnostic) : Session :=
  { session with entries := session.entries ++ entries }

/-- The session and the answer after a problem was reported. -/
def report (session : Session) (r : Report Unit) : Session × Answer :=
  let next := session.record r.entries
  match r.outcome with
  | .ok () => (next, .reported none next.entries.length)
  | .error failure => (next, .reported (some failure) next.entries.length)

/-- A list without the first value that is the same as that one, if there is one. -/
def eraseFirst? (value : Json) : List Json → Option (List Json)
  | [] => none
  | item :: rest =>
    if item.same value then some rest else (eraseFirst? value rest).map (item :: ·)

/-- The session after an action, and its answer. -/
def act (session : Session) : Action → Session × Answer
  | .resolve context node default? parameter =>
    let r := session.resolver.schemaOf "$" context node default?
    let result := r.outcome.map fun schema => (schema, schema.serialize parameter)
    (session.record r.entries, .resolved result r.entries)
  | .error context message =>
    session.report (Report.error session.strict context (.custom message))
  | .panic context message => session.report (Report.panic context (.custom message))
  | .setStrict strict => ({ session with strict := strict }, .done)
  | .define name =>
    let names := session.definitions ++ [name]
    ({ session with definitions := names }, .definitions names)
  | .undefine name =>
    match eraseFirst? name session.definitions with
    | some names => ({ session with definitions := names }, .definitions names)
    | none => (session, .undefined session.entries.length)
  | .configure fields =>
    let config := session.config.update fields
    ({ session with config := config }, .config config)
  | .errors =>
    (session, .diagnostics (session.entries.filter fun entry => entry.severity = .error))
  | .entries => (session, .diagnostics session.entries)

/-- The session after actions, and their answers. -/
def actAll (session : Session) : List Action → Session × List Answer
  | [] => (session, [])
  | action :: rest =>
    let (next, answer) := session.act action
    let (last, answers) := actAll next rest
    (last, answer :: answers)

end Session

end Schemata
