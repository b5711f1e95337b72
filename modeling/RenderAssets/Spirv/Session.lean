import RenderAssets.Spirv.Cursor

/-!
# Reading a module with saved places

A session holds one cursor that is being moved and a stack of cursors put aside.
Saving puts a copy of the cursor on the stack; restoring takes the last one back
and forgets where the cursor was. With nothing put aside, restoring does nothing.
-/

namespace RenderAssets.Spirv

/-- A cursor in use and the cursors put aside, last one first. -/
structure Session where
  cursor : Cursor
  saved : List Cursor := []
  deriving DecidableEq, Repr

/-- What can be done in a session. -/
inductive Command where
  /-- Step to the next instruction. -/
  | next
  /-- Search for an opcode. -/
  | find (opcode : UInt32)
  /-- Step to the end. -/
  | readAll
  /-- Put a copy of the cursor aside. -/
  | save
  /-- Take back the cursor put aside last. -/
  | restore
  deriving DecidableEq, Repr

/-- What a command reports. -/
inductive Report where
  /-- Nothing to report. -/
  | silent
  /-- One instruction, or none where one was asked for. -/
  | single (found : Option Instruction)
  /-- All instructions that were left. -/
  | several (found : List Instruction)
  deriving DecidableEq, Repr

namespace Session

/-- The session in front of the first instruction, with nothing put aside. -/
def start (words : List UInt32) : Session := { cursor := .start words }

/-- What a command reports, and the session after it. -/
def perform (session : Session) : Command → Report × Session
  | .next =>
    let (found, cursor) := session.cursor.next?
    (.single found, { session with cursor })
  | .find opcode =>
    let (found, cursor) := session.cursor.find? opcode
    (.single found, { session with cursor })
  | .readAll =>
    let (found, cursor) := session.cursor.readAll
    (.several found, { session with cursor })
  | .save => (.silent, { session with saved := session.cursor :: session.saved })
  | .restore =>
    match session.saved with
    | [] => (.silent, session)
    | cursor :: saved => (.silent, ⟨cursor, saved⟩)

/-- The session after a run of commands. -/
def performAll (session : Session) (commands : List Command) : Session :=
  commands.foldl (fun current command => (current.perform command).2) session

end Session

end RenderAssets.Spirv
