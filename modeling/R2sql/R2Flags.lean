-- The part of radare2 that the flag commands work on: flags with their
-- addresses and flagspaces, the stack of flagspaces, and functions.
import R2sql.WritableTables
import R2sql.CommandLines
import R2sql.Lib.Keyed

namespace r2sql

open json_utils keyed command_line

/-- A flag. `space` is none for a flag in no flagspace. -/
structure Flag where
  name : Bytes
  addr : Int64
  space : Option Bytes
  deriving DecidableEq

/-- A function. It has the name of a flag where the two go together. -/
structure R2Function where
  entry : Int64
  name : Bytes
  deriving DecidableEq

/-- What the flag commands work on. With no selected space, all flags are selected. -/
structure FlagState where
  flags : Table Flag.name
  functions : Table R2Function.entry
  spaces : Table (id : Bytes → Bytes)
  selected : Option Bytes
  stack : List (Option Bytes)
  known : ∀ space ∈ selected :: stack, ∀ name ∈ space, name ∈ spaces.rows

namespace FlagState

/-- The flag is in the selected space. -/
def selects (s : FlagState) (f : Flag) : Bool := s.selected = none ∨ f.space = s.selected

/-! ## Commands on flagspaces -/

/-- `fs X`: the space is selected, and made if there is none. -/
def select (space : Bytes) (s : FlagState) : FlagState :=
  { s with
    spaces := s.spaces.add space
    selected := some space
    known := by
      intro x hx name hname
      rcases List.mem_cons.mp hx with rfl | hx
      · obtain rfl := Option.mem_some_iff.mp hname
        simpa using Table.key_mem_add space s.spaces
      · exact Table.mem_add_of_mem (s.known x (List.mem_cons_of_mem _ hx) name hname) }

/-- `fs+X`: the selected space goes on the stack first. -/
def push (space : Bytes) (s : FlagState) : FlagState :=
  let t := s.select space
  { t with
    stack := s.selected :: s.stack
    known := by
      intro x hx name hname
      rcases List.mem_cons.mp hx with rfl | hx
      · exact t.known t.selected List.mem_cons_self name hname
      · exact Table.mem_add_of_mem (s.known x hx name hname) }

/-- `fs-`: the space on the top of the stack is selected again. -/
def pop (s : FlagState) : FlagState :=
  match h : s.stack with
  | [] => s
  | space :: rest =>
    { s with
      selected := space
      stack := rest
      known := fun x hx => s.known x (List.mem_cons_of_mem _ (h ▸ hx)) }

/-- A name of a space after `old` got the name `new`. -/
def renamed (old new : Bytes) (space : Option Bytes) : Option Bytes :=
  if space = some old then some new else space

/-- `fsr NAME`: the selected space gets the name, unless another space has it. -/
def rename_space (new : Bytes) (s : FlagState) : FlagState :=
  match s.selected with
  | none => s
  | some old =>
    if hnew : new ∈ s.spaces.rows then s
    else
      { s with
        flags := s.flags.change (fun f => { f with space := renamed old new f.space }) fun _ => rfl
        spaces := s.spaces.rekey (fun k _ => k) (fun _ _ => rfl) old new
        selected := renamed old new s.selected
        stack := s.stack.map (renamed old new)
        known := by
          intro x hx name hname
          rw [Table.rows_rekey (by simpa using hnew)]
          rw [← List.map_cons] at hx
          obtain ⟨y, hy, rfl⟩ := List.mem_map.mp hx
          rw [List.mem_map]
          unfold renamed at hname
          split at hname
          · rename_i hold
            obtain rfl := Option.mem_some_iff.mp hname
            exact ⟨old, s.known y hy old hold, by simp⟩
          · rename_i hold
            refine ⟨name, s.known y hy name hname, ?_⟩
            rw [if_neg]
            rintro rfl
            exact hold hname }

/-! ## Commands on flags and functions -/

/-- `f NAME @ ADDR`: the flag is in the selected space. -/
def set_flag (name : Bytes) (addr : Int64) (s : FlagState) : FlagState :=
  { s with flags := s.flags.put { name := name, addr := addr, space := s.selected } }

/-- `f- @ ADDR`: the flags at the address go, those of the selected space. -/
def delete_at (addr : Int64) (s : FlagState) : FlagState :=
  { s with flags := s.flags.keep fun f => !(decide (f.addr = addr) && s.selects f) }

/-- `fr OLD NEW`: the flag gets the name, unless another flag has it. -/
def rename_flag (old new : Bytes) (s : FlagState) : FlagState :=
  { s with
    flags := s.flags.rekey (fun name f => { f with name := name }) (fun _ _ => rfl) old new }

/-- `afn NAME @ ADDR`: the function at the address gets the name, and with it the flag that has its
name. -/
def rename_function (new : Bytes) (entry : Int64) (s : FlagState) : FlagState :=
  match s.functions.rows.find? fun g => g.entry = entry with
  | none => s
  | some g =>
    { s.rename_flag g.name new with
      functions := s.functions.change
        (fun h => if h.entry = entry then { h with name := new } else h)
        (fun h => by split <;> rfl) }

end FlagState

/-! ## The commands -/

/-- The commands that the flag tables send. -/
inductive FlagCommand where
  | print_stack
  | select (space : Bytes)
  | push (space : Bytes)
  | pop
  | rename_space (new : Bytes)
  | set_flag (name : Bytes) (addr : Int64)
  | delete_at (addr : Int64)
  | rename_flag (old new : Bytes)
  | rename_function (new : Bytes) (entry : Int64)
  | list
  | other
  deriving DecidableEq

namespace FlagCommand

/-- A verb with its arguments. `fs+` and `fsr` take what follows them as a name. -/
def of_verb (v args : Bytes) : FlagCommand :=
  if v = Bytes.lit "fss*" then .print_stack
  else if v = Bytes.lit "fs" then .select args
  else if v = Bytes.lit "fs-" then .pop
  else if v = Bytes.lit "fsr" then .rename_space args
  else if v.take 3 = Bytes.lit "fs+" then .push (v.drop 3)
  else if v.take 3 = Bytes.lit "fsr" then .rename_space (v.drop 3)
  else if v = Bytes.lit "f" then .set_flag (verb args) (address args)
  else if v = Bytes.lit "f-" then .delete_at (address args)
  else if v = Bytes.lit "fr" then
    -- the new name has no space, whatever the old one has
    let new := args.rtakeWhile (· ≠ ' '.toUInt8)
    .rename_flag (args.take (args.length - new.length - 1)) new
  else if v = Bytes.lit "afn" then .rename_function (verb args) (address args)
  else if v = Bytes.lit "fj" then .list
  else .other

def parse (command : Bytes) : FlagCommand := of_verb (verb command) (arguments command)

/-- What a command does. -/
def exec (s : FlagState) : FlagCommand → FlagState
  | select space => s.select space
  | push space => s.push space
  | pop => s.pop
  | rename_space new => s.rename_space new
  | set_flag name addr => s.set_flag name addr
  | delete_at addr => s.delete_at addr
  | rename_flag old new => s.rename_flag old new
  | rename_function new entry => s.rename_function new entry
  | print_stack | list | other => s

end FlagCommand

/-- radare2 on one command line. `fj` prints the flags of the selected space, the way `print` does,
and nothing reads what the other commands print. -/
def FlagState.answer (print : List Flag → Bytes) (s : FlagState) (command : Bytes) :
    Bytes × FlagState :=
  let c := FlagCommand.parse command
  (if c = .list then print (s.flags.rows.filter s.selects) else [], c.exec s)

end r2sql
