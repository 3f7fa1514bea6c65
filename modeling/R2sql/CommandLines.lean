-- Command lines of radare2 as it reads them: a verb, its arguments, and at
-- their end an address after `@`.
import R2sql.JsonUtils

namespace r2sql.command_line

open json_utils

/-- The text before the first space. -/
def verb (command : Bytes) : Bytes := command.takeWhile (· ≠ ' '.toUInt8)

/-- The text after the first space. -/
def arguments (command : Bytes) : Bytes := command.drop ((verb command).length + 1)

/-- The address in `NAME @ ADDR` or in `@ ADDR`. -/
def address (args : Bytes) : Int64 := read_hex_addr (args.rtakeWhile (· ≠ ' '.toUInt8))

theorem space_notMem_hex_addr (addr : Int64) : ' '.toUInt8 ∉ hex_addr addr := by
  have hdigit : ∀ c, hex.IsDigit c → c ≠ ' '.toUInt8 := Bytes.forall_byte (by decide +kernel)
  intro h
  rcases List.mem_append.mp h with h | h
  · revert h
    decide
  · exact hdigit _ (hex.isDigit_of_mem_print h) rfl

theorem verb_append {v : Bytes} (hv : ' '.toUInt8 ∉ v) (args : Bytes) :
    verb (v ++ ' '.toUInt8 :: args) = v := by
  unfold verb
  rw [List.takeWhile_append_of_pos]
  · simp
  · intro c hc
    simpa using ne_of_mem_of_not_mem hc hv

theorem arguments_append {v : Bytes} (hv : ' '.toUInt8 ∉ v) (args : Bytes) :
    arguments (v ++ ' '.toUInt8 :: args) = args := by
  rw [arguments, verb_append hv]
  simp

theorem last_word {w : Bytes} (hw : ' '.toUInt8 ∉ w) (before : Bytes) :
    (before ++ ' '.toUInt8 :: w).rtakeWhile (· ≠ ' '.toUInt8) = w := by
  rw [List.rtakeWhile, List.reverse_append, List.reverse_cons, List.append_assoc,
    List.takeWhile_append_of_pos]
  · simp
  · intro c hc
    simpa using ne_of_mem_of_not_mem (List.mem_reverse.mp hc) hw

theorem address_append (before : Bytes) (addr : Int64) :
    address (before ++ ' '.toUInt8 :: hex_addr addr) = addr := by
  rw [address, last_word (space_notMem_hex_addr addr), read_hex_addr_hex_addr]

theorem name_at_append {name : Bytes} (hname : ' '.toUInt8 ∉ name) (addr : Int64) :
    let args := name ++ (Bytes.lit " @ " ++ hex_addr addr)
    verb args = name ∧ address args = addr := by
  have hargs : name ++ (Bytes.lit " @ " ++ hex_addr addr) =
      name ++ ' '.toUInt8 :: (Bytes.lit "@" ++ ' '.toUInt8 :: hex_addr addr) := rfl
  have hlast : name ++ ' '.toUInt8 :: (Bytes.lit "@" ++ ' '.toUInt8 :: hex_addr addr) =
      (name ++ ' '.toUInt8 :: Bytes.lit "@") ++ ' '.toUInt8 :: hex_addr addr := by simp
  refine ⟨?_, ?_⟩
  · rw [hargs, verb_append hname]
  · rw [hargs, hlast, address_append]

end r2sql.command_line
