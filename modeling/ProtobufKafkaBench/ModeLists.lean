import ProtobufKafkaBench.ProcessEvent
import ProtobufKafkaBench.Separators
import ProtobufKafkaBench.TextSearch

/-!
The list of modes in the configuration. `split` cuts a text at its commas and is
the inverse of joining with commas, empty parts included; so a list of mode names
is gone through once, in order, and an empty part is a name like any other, which
no mode has.
-/
namespace ProtobufKafkaBench.AsyncPipeline

open ByteBuffers CommandLine Separators TextSearch

section Split

/-- `value.substr(start, count)` with `start` in the text; `none` is `npos`. -/
def substr (value : Bytes) (start : ℕ) (count : Option ℕ) : Bytes :=
  match count with
  | none => value.drop start
  | some count => (value.drop start).take count

/-- The loop of `split`, if it ends within `fuel` rounds. -/
def splitLoop (value : Bytes) : ℕ → ℕ → List Bytes → Option (List Bytes)
  | 0, _, _ => none
  | fuel + 1, start, result =>
    if start ≤ value.length then
      let comma := find value [44] start
      let result := result ++ [substr value start (comma.map (· - start))]
      match comma with
      | none => some result
      | some comma => splitLoop value fuel (comma + 1) result
    else some result

def split (fuel : ℕ) (value : Bytes) : Option (List Bytes) := splitLoop value fuel 0 []

/-- From a position in the text on, the loop adds the parts of the rest. The start is the
length of the text when the last byte was a comma. -/
theorem splitLoop_eq {value : Bytes} {fuel start : ℕ} {result : List Bytes}
    (hstart : start ≤ value.length) (hfuel : value.length - start < fuel) :
    splitLoop value fuel start result = some (result ++ (value.drop start).splitOn 44) := by
  induction fuel generalizing start result with
  | zero => omega
  | succ fuel ih =>
    rw [splitLoop, if_pos hstart]
    cases hfind : findFirst [44] (value.drop start) with
    | none =>
      have hrest := List.splitOn_eq_singleton (findFirst_byte_eq_none hfind)
      simp [find, hfind, substr, hrest]
    | some offset =>
      obtain ⟨hsplit, hnot⟩ := findFirst_byte_eq_some hfind
      have hlength := congrArg List.length hsplit
      rw [List.length_append, List.length_cons, List.length_take, List.length_drop,
        List.length_drop, List.length_drop] at hlength
      have hnext : start + offset + 1 ≤ value.length := by omega
      have hparts : (value.drop start).splitOn 44 =
          (value.drop start).take offset :: (value.drop (start + offset + 1)).splitOn 44 := by
        conv_lhs => rw [hsplit]
        rw [List.splitOn_append_cons_self_of_not_mem hnot, List.drop_drop, Nat.add_assoc]
      simp only [find, hfind, Option.map_some, substr, Nat.add_sub_cancel_left]
      rw [ih hnext (by omega), hparts, List.append_assoc, List.singleton_append]

theorem split_eq {value : Bytes} {fuel : ℕ} (hfuel : value.length < fuel) :
    split fuel value = some (value.splitOn 44) :=
  splitLoop_eq (Nat.zero_le _) (by omega)

/-- `split` returns, its parts are comma-free, one more than the commas, and join to the
text; and comma-free parts are found again in their join. -/
theorem split_join_inverse :
    (∀ value : Bytes, ∃ parts, (∀ fuel, value.length < fuel → split fuel value = some parts) ∧
      (∀ part ∈ parts, 44 ∉ part) ∧ parts.length = value.count 44 + 1 ∧
      [44].intercalate parts = value) ∧
    ∀ parts : List Bytes, parts ≠ [] → (∀ part ∈ parts, 44 ∉ part) →
      ∀ fuel, ([44].intercalate parts).length < fuel →
        split fuel ([44].intercalate parts) = some parts := by
  constructor
  · intro value
    refine ⟨value.splitOn 44, fun fuel hfuel => split_eq hfuel, ?_, length_splitOn value,
      List.intercalate_splitOn 44⟩
    intro part hpart
    exact not_mem_of_mem_splitOn hpart
  · intro parts hne hclean fuel hfuel
    rw [split_eq hfuel, List.splitOn_intercalate 44 hclean hne]

example : split 20 (ascii "async_both,,") = some [ascii "async_both", [], []] := by decide

end Split

section Modes

variable {World : Type} (runMode : Mode → Bytes → World → World)

/-- The loop over the mode names, given what the repetitions of one mode do. A name that
is no mode ends it. -/
def modeLoop : List Bytes → World → World × Except CliError Unit
  | [], world => (world, .ok ())
  | name :: rest, world =>
    match parseMode name with
    | .error error => (world, .error error)
    | .ok mode => modeLoop rest (runMode mode name world)

end Modes

end ProtobufKafkaBench.AsyncPipeline
