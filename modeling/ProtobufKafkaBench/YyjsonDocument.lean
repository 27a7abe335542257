import ProtobufKafkaBench.ByteMemory
import ProtobufKafkaBench.KeyedMembers
import ProtobufKafkaBench.MarketEvents

/-!
The JSON objects of the encoding benchmark. Three libraries own the keys of
their objects; the yyjson document keeps the pointers it is given, which point
into temporaries that are gone when the document is written. A write emits what
the memory holds there by then, always as many bytes as the key had. Of the
libraries only this much is assumed.
-/
namespace ProtobufKafkaBench.JsonObjects

open ByteBuffers ByteMemory KeyedMembers MarketEvents

section Objects

inductive Case
  | int64
  | decimal
  | wide

inductive Value
  | int (value : Int64)
  | text (bytes : Bytes)
  deriving DecidableEq

abbrev Member := Bytes × Value

def symbol (index : ℕ) : Bytes := ascii "SYMBOL_" ++ decimalDigits (index + 1)

def numbered (name : Bytes) (index : ℕ) : Bytes :=
  name ++ (if index < 10 then ascii "0" else ascii "") ++ decimalDigits index

/-- The statements `object[key] = value` of `make_nlohmann`, `make_jsoncpp` and
`make_boost_json`, which are the same. -/
def assignments : Case → List Member
  | .int64 =>
    (ascii "symbol", .text (ascii "BTC-USD")) :: (List.range' 1 10).map fun i =>
      (numbered (ascii "value_") i, .int (Int64.ofNat (1000000 + i)))
  | .decimal =>
    (ascii "symbol", .text (ascii "BTC-USD")) :: (List.range' 1 10).map fun i =>
      (numbered (ascii "decimal_") i, .text (decimal (i - 1)))
  | .wide =>
    ((List.range' 1 10).map fun i =>
      (numbered (ascii "symbol_") i, .text (symbol (i - 1)))) ++
    (List.range' 1 50).map fun i =>
      (numbered (ascii "decimal_") i, .text (decimal (i - 1)))

def makeNlohmann (object : ObjectType Bytes Value) (testCase : Case) : List Member :=
  assignAll object.assign (assignments testCase)

def makeJsoncpp (object : ObjectType Bytes Value) (testCase : Case) : List Member :=
  assignAll object.assign (assignments testCase)

/-- Only this library promises the order of insertion. -/
def makeBoostJson (object : OrderedType Bytes Value) (testCase : Case) : List Member :=
  assignAll object.assign (assignments testCase)

theorem assignments_nodup (testCase : Case) :
    ((assignments testCase).map Prod.fst).Nodup := by
  cases testCase with
  | int64 => decide
  | decimal => decide
  | wide => decide

end Objects

section Document

/-- The C string that `c_str` gives of a string. -/
def cstr (text : Bytes) : Bytes := text.takeWhile (· ≠ 0)

/-- A call of `add_string` or `add_int` with its temporaries. -/
inductive Call
  | addString (key value : Bytes)
  | addInt (key : Bytes) (value : Int64)

def Call.key : Call → Bytes
  | .addString key _ => key
  | .addInt key _ => key

/-- The member that a call passes to the library. -/
def Call.member : Call → Member
  | .addString key value => (cstr key, .text (cstr value))
  | .addInt key value => (cstr key, .int value)

def makeYyjson : Case → List Call
  | .int64 =>
    .addString (ascii "symbol") (ascii "BTC-USD") :: (List.range' 1 10).map fun i =>
      .addInt (numbered (ascii "value_") i) (Int64.ofNat (1000000 + i))
  | .decimal =>
    .addString (ascii "symbol") (ascii "BTC-USD") :: (List.range' 1 10).map fun i =>
      .addString (numbered (ascii "decimal_") i) (decimal (i - 1))
  | .wide =>
    ((List.range' 1 10).map fun i =>
      .addString (numbered (ascii "symbol_") i) (symbol (i - 1))) ++
    (List.range' 1 50).map fun i =>
      .addString (numbered (ascii "decimal_") i) (decimal (i - 1))

/-- A key as the document keeps it: the caller's pointer and the length at the time. -/
structure KeyPointer where
  address : ℕ
  length : ℕ

def strlen (memory : Memory) (address size : ℕ) : ℕ :=
  ((read memory address (size + 1)).takeWhile (· ≠ 0)).length

/-- What `yyjson.h` documents. `objAdd` stands for `yyjson_mut_obj_add_sint` and
`yyjson_mut_obj_add_strcpy` with a key at `address` in a string of `size` bytes: the value is
copied, the key is not. `mutWrite` reads each key where it was. -/
structure Yyjson where
  MutDoc : Type
  docNew : MutDoc
  objAdd : Memory → MutDoc → ℕ → ℕ → Value → MutDoc
  mutWrite : Memory → MutDoc → List Member
  entries : MutDoc → List (KeyPointer × Value)
  entries_new : entries docNew = []
  entries_add : ∀ (memory : Memory) (doc : MutDoc) (address size : ℕ) (value : Value),
    entries (objAdd memory doc address size value) =
      entries doc ++ [(⟨address, strlen memory address size⟩, value)]
  write_eq : ∀ (memory : Memory) (doc : MutDoc), mutWrite memory doc =
    (entries doc).map fun entry => (read memory entry.1.address entry.1.length, entry.2)

/-- A document that is the list of its entries. -/
def Yyjson.plain : Yyjson where
  MutDoc := List (KeyPointer × Value)
  docNew := []
  objAdd memory doc address size value :=
    doc ++ [(⟨address, strlen memory address size⟩, value)]
  mutWrite memory doc :=
    doc.map fun entry => (read memory entry.1.address entry.1.length, entry.2)
  entries := id
  entries_new := rfl
  entries_add _ _ _ _ _ := rfl
  write_eq _ _ := rfl

/-- A call whose key has its temporary at the given address, or any other change to
memory: a value's temporary, or whatever comes to use the place of a dead one. -/
inductive Event
  | add (address : ℕ) (call : Call)
  | store (address : ℕ) (bytes : Bytes)

def Event.call : Event → Option Call
  | .add _ call => some call
  | .store _ _ => none

/-- The memory an event fills; the temporary of a key ends with a NUL. -/
def Event.block : Event → ℕ × Bytes
  | .add address call => (address, call.key ++ [0])
  | .store address bytes => (address, bytes)

structure State (library : Yyjson) where
  memory : Memory
  doc : library.MutDoc

def step (library : Yyjson) (state : State library) (event : Event) : State library :=
  let memory := fill state.memory event.block.1 event.block.2
  match event with
  | .add address call =>
    { memory, doc := library.objAdd memory state.doc address call.key.length call.member.2 }
  | .store _ _ => { state with memory }

/-- The run from an empty document. -/
def run (library : Yyjson) (memory : Memory) (events : List Event) : State library :=
  events.foldl (step library) ⟨memory, library.docNew⟩

/-- What a write at the end of a run emits. -/
def written (library : Yyjson) (memory : Memory) (events : List Event) : List Member :=
  library.mutWrite (run library memory events).memory (run library memory events).doc

/-- Changes of memory alone, once the document has been built. -/
def stores (blocks : List (ℕ × Bytes)) : List Event :=
  blocks.map fun block => .store block.1 block.2

/-- The members passed in a run, in order. -/
def passed (events : List Event) : List Member :=
  (events.filterMap Event.call).map Call.member

/-- Every event of the run leaves the keys added before it as they were, or what it
destroyed has been stored there again since. -/
def KeysKept : List Event → Prop
  | [] => True
  | .store _ _ :: rest => KeysKept rest
  | .add address call :: rest =>
    Kept (rest.map Event.block) address (cstr call.key) ∧ KeysKept rest

instance decidableKeysKept : (events : List Event) → Decidable (KeysKept events)
  | [] => inferInstanceAs (Decidable True)
  | .store _ _ :: rest => decidableKeysKept rest
  | .add address call :: rest =>
    have := decidableKeysKept rest
    inferInstanceAs (Decidable
      (Kept (rest.map Event.block) address (cstr call.key) ∧ KeysKept rest))

end Document

section Run

theorem cstr_terminated (text : Bytes) : (text ++ [0]).takeWhile (· ≠ 0) = cstr text := by
  rw [cstr, List.takeWhile_append]
  by_cases hall : (text.takeWhile (· ≠ 0)).length = text.length
  · rw [if_pos hall, (List.takeWhile_prefix _).eq_of_length hall]
    exact List.append_nil text
  · rw [if_neg hall]

theorem strlen_fill (memory : Memory) (address : ℕ) (key : Bytes) :
    strlen (fill memory address (key ++ [0])) address key.length = (cstr key).length := by
  have hread := read_fill memory address (key ++ [0]) []
  rw [List.append_nil, List.length_append, List.length_singleton] at hread
  rw [strlen, hread, cstr_terminated]

/-- The key is in memory at the moment of its call. -/
theorem read_key (memory : Memory) (address : ℕ) (key : Bytes) :
    read (fill memory address (key ++ [0])) address (cstr key).length = cstr key := by
  have hsplit : key ++ [0] = cstr key ++ (key.dropWhile (· ≠ 0) ++ [0]) := by
    rw [← List.append_assoc, cstr, List.takeWhile_append_dropWhile]
  rw [hsplit]
  exact read_fill memory address _ _

/-- What an event adds to the document. -/
def Event.entry : Event → Option (KeyPointer × Value)
  | .add address call => some (⟨address, (cstr call.key).length⟩, call.member.2)
  | .store _ _ => none

variable {library : Yyjson}

theorem step_spec (state : State library) (event : Event) :
    (step library state event).memory = fill state.memory event.block.1 event.block.2 ∧
      library.entries (step library state event).doc =
        library.entries state.doc ++ event.entry.toList := by
  cases event with
  | add address call =>
    have hentries := library.entries_add (fill state.memory address (call.key ++ [0])) state.doc
      address call.key.length call.member.2
    rw [strlen_fill] at hentries
    exact ⟨rfl, hentries⟩
  | store address bytes => exact ⟨rfl, (List.append_nil _).symm⟩

theorem foldl_step (state : State library) (events : List Event) :
    (events.foldl (step library) state).memory =
        fillAll state.memory (events.map Event.block) ∧
      library.entries (events.foldl (step library) state).doc =
        library.entries state.doc ++ events.filterMap Event.entry := by
  induction events generalizing state with
  | nil => exact ⟨rfl, (List.append_nil _).symm⟩
  | cons event rest ih =>
    have hentry : event.entry.toList ++ rest.filterMap Event.entry =
        (event :: rest).filterMap Event.entry := by
      rw [List.filterMap_cons]
      cases event.entry <;> rfl
    obtain ⟨hmemory, hentries⟩ := ih (step library state event)
    obtain ⟨hfilled, hadded⟩ := step_spec state event
    rw [hfilled] at hmemory
    rw [hadded, List.append_assoc, hentry] at hentries
    exact ⟨hmemory, hentries⟩

/-- What a write emits, whatever the document looks like. -/
theorem written_eq (library : Yyjson) (memory : Memory) (events : List Event) :
    written library memory events = (events.filterMap Event.entry).map fun entry =>
      (read (fillAll memory (events.map Event.block)) entry.1.address entry.1.length,
        entry.2) := by
  obtain ⟨hmemory, hentries⟩ := @foldl_step library ⟨memory, library.docNew⟩ events
  rw [library.entries_new, List.nil_append] at hentries
  rw [written, library.write_eq, run, hmemory, hentries]

theorem passed_cons (event : Event) (rest : List Event) :
    passed (event :: rest) = (event.call.toList.map Call.member) ++ passed rest := by
  unfold passed
  rw [List.filterMap_cons]
  cases event.call <;> rfl

/-- A write emits what was passed exactly when the keys have been kept until then. -/
theorem written_eq_passed_iff (library : Yyjson) (memory : Memory) (events : List Event) :
    written library memory events = passed events ↔ KeysKept events := by
  rw [written_eq]
  induction events generalizing memory with
  | nil => exact iff_of_true rfl trivial
  | cons event rest ih =>
    have hmemory : fillAll memory ((event :: rest).map Event.block) =
        fillAll (fill memory event.block.1 event.block.2) (rest.map Event.block) := rfl
    rw [passed_cons]
    cases event with
    | add address call =>
      have hkept := read_fillAll_iff (read_key memory address call.key) (rest.map Event.block)
      have hrest := ih (fill memory address (call.key ++ [0]))
      have hmember : call.member = (cstr call.key, call.member.2) := by
        cases call <;> rfl
      constructor
      · intro h
        obtain ⟨hhead, htail⟩ := List.cons.inj h
        rw [hmember] at hhead
        exact ⟨hkept.mp (Prod.mk.inj hhead).1, hrest.mp htail⟩
      · intro h
        refine List.cons_eq_cons.mpr ⟨?_, hrest.mpr h.2⟩
        rw [hmember]
        exact Prod.ext (hkept.mpr h.1) rfl
    | store address bytes => exact ih (fill memory address bytes)

/-- Whatever happens to the memory, a write emits members of the same sizes with the
same values. -/
theorem written_lengths (library : Yyjson) (memory : Memory) (events : List Event) :
    (written library memory events).map (fun member => (member.1.length, member.2)) =
      (passed events).map fun member => (member.1.length, member.2) := by
  rw [written_eq]
  generalize fillAll memory (events.map Event.block) = final
  induction events with
  | nil => rfl
  | cons event rest ih =>
    rw [passed_cons]
    cases event with
    | add address call =>
      have hkey : call.member.1 = cstr call.key := by
        cases call <;> rfl
      refine List.cons_eq_cons.mpr ⟨?_, ih⟩
      show ((read final address (cstr call.key).length).length, call.member.2) =
        (call.member.1.length, call.member.2)
      rw [read_length, hkey]
    | store address bytes => exact ih

theorem makeYyjson_members (testCase : Case) :
    (makeYyjson testCase).map Call.member = assignments testCase := by
  cases testCase with
  | int64 => decide +kernel
  | decimal => decide +kernel
  | wide => decide +kernel

theorem passed_stores (build : List Event) (blocks : List (ℕ × Bytes)) :
    passed (build ++ stores blocks) = passed build := by
  have hnone : (stores blocks).filterMap Event.call = [] := by
    rw [stores, List.filterMap_map]
    exact List.filterMap_eq_nil_iff.mpr fun block _ => rfl
  rw [passed, List.filterMap_append, hnone, List.append_nil]
  rfl

/-- The document written at any time after it was built holds the members passed, which
for `make_yyjson` are those of the other libraries, exactly when no key has been lost. -/
theorem yyjson_writes_exact_iff (library : Yyjson) (nlohmann jsoncpp : ObjectType Bytes Value)
    (boost : OrderedType Bytes Value) (memory : Memory) (build : List Event)
    (later : List (ℕ × Bytes)) :
    ((∀ done, done <+: later →
        written library memory (build ++ stores done) = passed build) ↔
      ∀ done, done <+: later → KeysKept (build ++ stores done)) ∧
    ∀ testCase, build.filterMap Event.call = makeYyjson testCase →
      passed build = makeBoostJson boost testCase ∧
      (passed build).Perm (makeNlohmann nlohmann testCase) ∧
      (passed build).Perm (makeJsoncpp jsoncpp testCase) := by
  refine ⟨?_, ?_⟩
  · constructor
    · intro h done hdone
      apply (written_eq_passed_iff library memory _).mp
      rw [passed_stores]
      exact h done hdone
    · intro h done hdone
      rw [(written_eq_passed_iff library memory _).mpr (h done hdone), passed_stores]
  · intro testCase hcalls
    have hpassed : passed build = assignments testCase := by
      rw [passed, hcalls, makeYyjson_members]
    have hnodup := assignments_nodup testCase
    rw [hpassed]
    exact ⟨(boost.assignAll_eq hnodup).symm, (nlohmann.assignAll_perm hnodup).symm,
      (jsoncpp.assignAll_perm hnodup).symm⟩

/-- Temporaries with places of their own, and a value's temporary elsewhere. -/
def apart : List Event := [
  .add 0 (.addInt (ascii "value_01") 1000001),
  .store 64 (ascii "BTC-USD"),
  .add 32 (.addString (ascii "symbol") (ascii "BTC-USD"))]

theorem yyjson_writes_exact_iff_apart :
    written Yyjson.plain (fun _ => 0) apart =
      [(ascii "value_01", .int 1000001), (ascii "symbol", .text (ascii "BTC-USD"))] := by
  have hkept : ∀ done, done <+: [] → KeysKept (apart ++ stores done) := by
    intro done hdone
    rw [List.prefix_nil.mp hdone]
    decide
  exact (yyjson_writes_exact_iff Yyjson.plain ObjectType.byKey ObjectType.byKey
    OrderedType.byInsertion (fun _ => 0) apart []).1.mpr hkept [] (List.prefix_refl [])

end Run

section SameSlot

/-- The calls of a loop whose temporaries all take the same place. -/
def atSlot (slot : ℕ) (calls : List Call) : List Event := calls.map (Event.add slot)

/-- Every key then reads as the start of the last one. -/
theorem written_atSlot (library : Yyjson) (memory : Memory) (slot : ℕ) {calls : List Call}
    {last : Call}
    (hshort : ∀ call ∈ calls, (cstr call.key).length ≤ (cstr last.key).length) :
    written library memory (atSlot slot (calls ++ [last])) = (calls ++ [last]).map fun call =>
        ((cstr last.key).take (cstr call.key).length, call.member.2) := by
  have hentries : (atSlot slot (calls ++ [last])).filterMap Event.entry =
      (calls ++ [last]).map fun call =>
        (⟨slot, (cstr call.key).length⟩, call.member.2) := by
    rw [atSlot, List.filterMap_map]
    exact congrFun (@List.filterMap_eq_map _ _ fun call : Call =>
      (KeyPointer.mk slot (cstr call.key).length, call.member.2)) _
  have hmemory : fillAll memory ((atSlot slot (calls ++ [last])).map Event.block) =
      fill (fillAll memory ((atSlot slot calls).map Event.block)) slot (last.key ++ [0]) := by
    rw [atSlot, List.map_append, List.map_append, fillAll, List.foldl_append]
    rfl
  rw [written_eq, hentries, hmemory, List.map_map]
  apply List.map_congr_left
  intro call hcall
  have hlength : (cstr call.key).length ≤ (cstr last.key).length := by
    rcases List.mem_append.mp hcall with hcall | hcall
    · exact hshort call hcall
    · rw [List.mem_singleton.mp hcall]
  refine Prod.ext ?_ rfl
  show read _ slot (cstr call.key).length = _
  rw [read_take hlength, read_key]

/-- With all temporaries in one place the int64 document has the same key ten times. -/
theorem int64_document_at_slot :
    (written Yyjson.plain (fun _ => 0) (atSlot 0 (makeYyjson .int64))).map Prod.fst =
      ascii "value_" :: List.replicate 10 (ascii "value_10") ∧
    written Yyjson.plain (fun _ => 0) (atSlot 0 (makeYyjson .int64)) ≠
      passed (atSlot 0 (makeYyjson .int64)) := by
  have hcalls : makeYyjson .int64 = (makeYyjson .int64).dropLast ++
      [.addInt (numbered (ascii "value_") 10) 1000010] := rfl
  have hwritten := @written_atSlot Yyjson.plain (fun _ => 0) 0 (makeYyjson .int64).dropLast
    (.addInt (numbered (ascii "value_") 10) 1000010) (by decide +kernel)
  rw [← hcalls] at hwritten
  have hkeys : ((makeYyjson .int64).map fun call =>
      ((cstr (numbered (ascii "value_") 10)).take (cstr call.key).length, call.member.2)).map
        Prod.fst = ascii "value_" :: List.replicate 10 (ascii "value_10") := by
    decide +kernel
  have hpassed : (passed (atSlot 0 (makeYyjson .int64))).map Prod.fst ≠
      ascii "value_" :: List.replicate 10 (ascii "value_10") := by
    decide +kernel
  rw [hwritten]
  refine ⟨hkeys, ?_⟩
  intro hsame
  apply hpassed
  rw [← hsame]
  exact hkeys

end SameSlot

end ProtobufKafkaBench.JsonObjects
