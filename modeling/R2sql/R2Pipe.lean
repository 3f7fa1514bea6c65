-- The r2pipe backend on POSIX and the radare2 child behind it: a command goes
-- down one pipe as a line, and its reply comes up the other to the next NUL.
import R2sql.Lib.Bytes

namespace r2sql

/-- The byte that ends a line of the child's input. -/
def newline : UInt8 := '\n'.toUInt8

/-! ## The options -/

structure R2PipeOpenOptions where
  r2_executable : Bytes := []
  path : Bytes := []
  project : Bytes := []
  analyze : Bool := true
  write : Bool := false
  extra_args : List Bytes := []
  deriving DecidableEq

/-! ## The backend -/

/-- The members of `R2PipePosixBackend` that `cmd` reads: the two ends of the pipes, -1 where one is
closed. -/
structure R2PipePosixBackend where
  stdin_ : Int
  stdout_ : Int
  deriving DecidableEq

/-- What one call of `read` gives: the bytes in the buffer (no bytes at the end of the stream), or
an error. -/
inductive ReadResult where
  | chunk (buf : Bytes)
  | fail
  deriving DecidableEq

/-- The search for a NUL in the buffer, from index `i`: its index, or -1. -/
def find_nul (i : Int) : Bytes → Int
  | [] => -1
  | c :: buf => if c = 0 then i else find_nul (i + 1) buf

/-- The reading loop of `cmd`, on the results of the calls of `read`: the text, and the results that
the loop leaves alone. There is no text while the loop would go on reading. -/
def read_loop (out : Bytes) : List ReadResult → Option (Bytes × List ReadResult)
  | [] => none
  | .fail :: reads => some (out, reads)
  | .chunk buf :: reads =>
    if buf = [] then some (out, reads)
    else
      let nul := find_nul 0 buf
      if 0 ≤ nul then some (out ++ buf.take nul.toNat, reads) else read_loop (out ++ buf) reads

namespace R2PipePosixBackend

/-- `stdin_ < 0 || stdout_ < 0`. -/
def closed (be : R2PipePosixBackend) : Bool := be.stdin_ < 0 || be.stdout_ < 0

/-- The bytes that `cmd` writes. -/
def line (command : Bytes) : Bytes := command ++ [newline]

/-- `R2PipePosixBackend::cmd`, where `written` is what `write` returns. -/
def cmd (be : R2PipePosixBackend) (command : Bytes) (written : Int) (reads : List ReadResult) :
    Option (Bytes × List ReadResult) :=
  if be.closed then some ([], reads)
  else if written ≠ (line command).length then some ([], reads)
  else read_loop [] reads

end R2PipePosixBackend

/-! ## The child -/

/-- What the child has read of a line that has not ended, and what it has printed that nobody has
read. -/
structure Child where
  line : Bytes
  output : Bytes
  deriving DecidableEq

namespace Child

/-- `radare2 -q0` prints one NUL when it is ready. -/
def spawned : Child := { line := [], output := [0] }

/-- The child reads its input. It answers each line that ends with the reply and a NUL. -/
def feed (reply : Bytes → Bytes) (c : Child) : Bytes → Child
  | [] => c
  | b :: input =>
    if b = newline then
      feed reply { line := [], output := c.output ++ reply c.line ++ [0] } input
    else feed reply { c with line := c.line ++ [b] } input

end Child

/-- The output that is left after some calls of `read`. The operating system picks how many bytes
each call gives, from one byte to a full buffer of 4096. -/
def deliver : Bytes → List ReadResult → Option Bytes
  | output, [] => some output
  | output, .fail :: reads => deliver output reads
  | output, .chunk buf :: reads =>
    if buf ≠ [] ∧ buf.length ≤ 4096 ∧ buf <+: output then deliver (output.drop buf.length) reads
    else none

/-! ## The two together -/

structure Pipe where
  be : R2PipePosixBackend
  child : Child
  deriving DecidableEq

/-- One call of `cmd`: the command, what its system calls give, and the string it returns. -/
structure Exchange where
  command : Bytes
  written : Int
  reads : List ReadResult
  result : Bytes
  deriving DecidableEq

namespace Exchange

/-- Every system call of the exchange succeeds, and the write is whole. -/
def Succeeds (e : Exchange) : Prop :=
  e.written = (R2PipePosixBackend.line e.command).length ∧ ReadResult.fail ∉ e.reads

end Exchange

namespace Pipe

/-- The pipe after the handshake of `start`, that reads one byte and wants it to be a NUL. -/
def start (stdin_ stdout_ : Nat) : Option Pipe :=
  match Child.spawned.output with
  | b :: output =>
    if b = 0 then
      some {
        be := { stdin_ := stdin_, stdout_ := stdout_ }
        child := { line := [], output := output } }
    else none
  | [] => none

/-- One call of `cmd` against the child. A step for the calls of `read` that the loop makes, no more
and no less, where the child's output has the bytes that they give. -/
def exchange (reply : Bytes → Bytes) (p : Pipe) (e : Exchange) : Option Pipe :=
  let line := R2PipePosixBackend.line e.command
  let child := if p.be.closed then p.child else p.child.feed reply (line.take e.written.toNat)
  if e.written ≤ line.length ∧ p.be.cmd e.command e.written e.reads = some (e.result, []) then
    (deliver child.output e.reads).map fun output =>
      { p with child := { child with output := output } }
  else none

end Pipe

end r2sql
