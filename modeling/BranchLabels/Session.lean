import BranchLabels.Labelling

/-!
# Sessions

A session holds a listing, a label table and a configuration, edits them step by
step, and can compare them with a copy taken before.

Main results:

- Theorem `step_eq_of_error`: a step that is refused changes nothing.
-/

namespace BranchLabels

namespace Session

/-- What a session works on. -/
structure Desk where
  listing : Listing := {}
  labels : LabelTable := ∅
  config : Config := {}
  deriving DecidableEq

/-- The state of a session. -/
structure State where
  desk : Desk := {}
  /-- The copy taken last. -/
  saved : Desk := {}
  deriving DecidableEq

/-- A change of one field of an instruction, which leaves its line as it is. -/
inductive Edit where
  | address (value : Address)
  | mnemonic (value : Text)
  | operands (value : Text)
  deriving DecidableEq

/-- The instruction after an edit. -/
def Edit.apply (i : Instruction) : Edit → Instruction
  | .address value => { i with address := value }
  | .mnemonic value => { i with mnemonic := value }
  | .operands value => { i with operands := value }

/-- A step at the desk. -/
inductive Task where
  /-- Use another configuration. -/
  | configure (config : Config)
  /-- Replace the listing by that of a text. -/
  | parse (text : Text)
  /-- Read a line and add it if it is an instruction. -/
  | push (line : Nat) (text : Text)
  | addHeader (text : Text)
  | addTrailer (text : Text)
  | remove (index : Nat)
  | swap (a b : Nat)
  | edit (index : Nat) (change : Edit)
  /-- Build the label table anew, by default with the prefix of the
  configuration. -/
  | build (stem : Option Text)
  | clear
  | get (address : Address)
  | resolve (index : Nat)
  | writeLine (index : Nat)
  | emit
  /-- Replace the listing by that of its labelled text. -/
  | reparse
  | display
  deriving DecidableEq

/-- A step of a session. -/
inductive Command where
  | work (task : Task)
  /-- Take a copy of the desk. -/
  | save
  /-- Compare the desk with the copy. -/
  | compare
  deriving DecidableEq

/-- What a step answers. -/
inductive Reply where
  | done
  | counts (header instructions trailer : Nat)
  | maybeInstruction (i : Option Instruction)
  | header (ls : List Text)
  | trailer (ls : List Text)
  | removed (i : Instruction)
  | addresses (as : List Address)
  | instruction (i : Instruction)
  | table (labels : LabelTable)
  | label (name : Option Text) (present : Bool)
  | target (t : Option Target)
  | line (l : WrittenLine)
  | text (t : Text)
  | listing (l : Listing)
  | same (listing labels config : Bool)
  deriving DecidableEq

/-- Why a step is refused. -/
inductive Refusal where
  | listing (e : ListingError)
  /-- There is no instruction with this index. -/
  | badIndex
  deriving DecidableEq

/-- The outcome of something that may be wrong with a listing. -/
def check {α : Type} : Except ListingError α → Except Refusal α
  | .ok a => .ok a
  | .error e => .error (.listing e)

/-- The instruction with an index. -/
def at? (is : List Instruction) (index : Nat) : Except Refusal Instruction :=
  match is[index]? with
  | some i => .ok i
  | none => .error .badIndex

/-- The numbers of lines of a listing. -/
def countsOf (l : Listing) : Reply :=
  .counts l.header.length l.instructions.length l.trailer.length

/-- The desk with other instructions. -/
def Desk.withInstructions (d : Desk) (is : List Instruction) : Desk :=
  { d with listing := { d.listing with instructions := is } }

/-- One step at the desk: the answer and the desk after it. -/
def Desk.step (isa : Isa) (d : Desk) : Task → Except Refusal (Reply × Desk)
  | .configure config => do
      check config.validate
      return (.done, { d with config })
  | .parse text => do
      let listing ← check (Listing.ofText text)
      return (countsOf listing, { d with listing })
  | .push line text => do
      match ← check (Instruction.read line text) with
      | some i =>
          return (.maybeInstruction (some i),
            d.withInstructions (d.listing.instructions ++ [i]))
      | none => return (.maybeInstruction none, d)
  | .addHeader text =>
      let header := d.listing.header ++ [text]
      .ok (.header header, { d with listing := { d.listing with header } })
  | .addTrailer text =>
      let trailer := d.listing.trailer ++ [text]
      .ok (.trailer trailer, { d with listing := { d.listing with trailer } })
  | .remove index => do
      let i ← at? d.listing.instructions index
      return (.removed i, d.withInstructions (d.listing.instructions.eraseIdx index))
  | .swap a b => do
      let i ← at? d.listing.instructions a
      let j ← at? d.listing.instructions b
      let is := (d.listing.instructions.set a j).set b i
      return (.addresses (is.map (·.address)), d.withInstructions is)
  | .edit index change => do
      let i ← at? d.listing.instructions index
      let i := change.apply i
      return (.instruction i, d.withInstructions (d.listing.instructions.set index i))
  | .build stem =>
      let labels := LabelTable.build isa d.listing.instructions (stem.getD d.config.labelPrefix)
      .ok (.table labels, { d with labels })
  | .clear => .ok (.table ∅, { d with labels := ∅ })
  | .get address => .ok (.label (d.labels.get? address) (d.labels.contains address), d)
  | .resolve index => do
      let i ← at? d.listing.instructions index
      return (.target (i.target? isa), d)
  | .writeLine index => do
      let i ← at? d.listing.instructions index
      let line ← check (i.write isa d.labels)
      return (.line line, d)
  | .emit => do
      let text ← check (d.listing.labelledText isa d.labels d.config)
      return (.text text, d)
  | .reparse => do
      let text ← check (d.listing.labelledText isa d.labels d.config)
      let listing ← check (Listing.ofText text)
      return (countsOf listing, { d with listing })
  | .display => .ok (.listing d.listing, d)

/-- One step of a session: the answer and the state after it. -/
def State.step (isa : Isa) (s : State) : Command → Except Refusal Reply × State
  | .save => (.ok .done, { s with saved := s.desk })
  | .compare =>
      (.ok (.same (s.desk.listing = s.saved.listing) (s.desk.labels = s.saved.labels)
        (s.desk.config = s.saved.config)), s)
  | .work task =>
      match s.desk.step isa task with
      | .ok (reply, desk) => (.ok reply, { s with desk })
      | .error e => (.error e, s)

/-- The answers of a session that starts in a state. -/
def run (isa : Isa) : State → List Command → List (Except Refusal Reply)
  | _, [] => []
  | s, c :: cs => (s.step isa c).1 :: run isa (s.step isa c).2 cs

/-- A step that is refused changes nothing. -/
theorem step_eq_of_error {isa : Isa} {s : State} {c : Command} {e : Refusal}
    (h : (s.step isa c).1 = .error e) : (s.step isa c).2 = s := by
  unfold State.step at h ⊢
  split at h
  · cases h
  · cases h
  · split at h
    · cases h
    · rfl

end Session

end BranchLabels
