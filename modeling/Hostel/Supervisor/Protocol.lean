/-
# Hostel.Supervisor.Protocol — the start request on its way from the client to the supervisor.

The client sends one frame of JSON with the descriptors of the child attached.  A specification that
makes the frame too large travels in a sealed memory file, the last descriptor.  The request carries
the fingerprint of the specification, the hash of its JSON, and the supervisor compares it with that
of what it has decoded.

The frame omits empty slices, the file does not.  `Request.received` is what becomes of a request on
the way (strings repaired, empty slices gone), and `checkStart_send` what the supervisor takes the
specification for.  The fingerprint tells the specifications apart as far as the hash does
(`spec_eq_or_collision`), since the JSON of a decoded specification has nothing to repair.
-/
import Hostel.Logic.JsonRecord

namespace Hostel.Supervisor

open Hostel.Logic Hostel.Logic.Json Hostel.Logic.Utf8 List Field

abbrev Bytes := List UInt8

def maxMessageSize : Nat := 128 * 1024

def maxStartSpecSize : Nat := 4 * 1024 * 1024

def maxExtraFiles : Nat := 12

/-! ## Messages -/

inductive Operation
  | describe | start | get | wait | signal | shutdown
  | unknown (name : Bytes)
  deriving DecidableEq, Repr

def Operation.text : Operation → Bytes
  | .describe => ascii "describe"
  | .start => ascii "start"
  | .get => ascii "get"
  | .wait => ascii "wait"
  | .signal => ascii "signal"
  | .shutdown => ascii "shutdown"
  | .unknown name => name

def Operation.ofText (s : Bytes) : Operation :=
  if s = ascii "describe" then .describe
  else if s = ascii "start" then .start
  else if s = ascii "get" then .get
  else if s = ascii "wait" then .wait
  else if s = ascii "signal" then .signal
  else if s = ascii "shutdown" then .shutdown
  else .unknown s

/-- `request`; a nil slice is `none`. -/
structure Request where
  extraFileCount : Int := 0
  extraFileHash : Bytes := []
  drainGroup : Bool := false
  operation : Operation := .unknown []
  executorID : Bytes := []
  processID : Bytes := []
  specHash : Bytes := []
  specInFD : Bool := false
  argv : Option (List Bytes) := none
  dir : Bytes := []
  env : Option (List Bytes) := none
  signal : Int := 0
  deriving DecidableEq, Repr

def requestFields : List (Json.Field Request) :=
  [.count (ascii "extra_file_count") (·.extraFileCount) fun r n => { r with extraFileCount := n },
    .string (ascii "extra_file_hash") true (·.extraFileHash) fun r s =>
    { r with extraFileHash := s }, .flag (ascii "drain_group") (·.drainGroup) fun r b =>
    { r with drainGroup := b }, .string (ascii "operation") false (·.operation.text) fun r s =>
    { r with operation := .ofText s }, .string (ascii "executor_id") false (·.executorID) fun r s =>
    { r with executorID := s }, .string (ascii "process_id") true (·.processID) fun r s =>
    { r with processID := s }, .string (ascii "spec_hash") true (·.specHash) fun r s =>
    { r with specHash := s }, .flag (ascii "spec_in_fd") (·.specInFD) fun r b =>
    { r with specInFD := b },
    .strings (ascii "argv") true (·.argv) fun r ss => { r with argv := ss },
    .string (ascii "dir") true (·.dir) fun r s => { r with dir := s },
    .strings (ascii "env") true (·.env) fun r ss => { r with env := ss },
    .count (ascii "signal") (·.signal) fun r n => { r with signal := n }]

structure StartSpec where
  argv : Option (List Bytes) := none
  dir : Bytes := []
  env : Option (List Bytes) := none
  deriving DecidableEq, Repr

def specFields : List (Json.Field StartSpec) :=
  [.strings (ascii "argv") false (·.argv) fun r ss => { r with argv := ss },
    .string (ascii "dir") false (·.dir) fun r s => { r with dir := s },
    .strings (ascii "env") false (·.env) fun r ss => { r with env := ss }]

def StartSpec.marshal (spec : StartSpec) : Bytes := render (encodeFields specFields spec)

def StartSpec.unmarshal (data : Bytes) : Option StartSpec :=
  (parse data).bind (decodeFields specFields {})

def Request.marshal (r : Request) : Bytes := render (encodeFields requestFields r)

def Request.unmarshal (data : Bytes) : Option Request :=
  (parse data).bind (decodeFields requestFields {})

def hex (d : Bytes) : Bytes := d.flatMap fun b => [hexDigit (b.toNat / 16), hexDigit (b.toNat % 16)]

section Hash

-- the hash, SHA-256
variable (sum : Bytes → Bytes)

def specHash (spec : StartSpec) : Bytes := hex (sum spec.marshal)

/-- What `fstat` says of a file. -/
structure Stat where
  dev : Nat
  ino : Nat
  mode : Nat
  deriving DecidableEq, Repr

/-- An open descriptor: `stat` and `content` are `none` when `fstat` or reading it fails. -/
structure Descriptor where
  stat : Option Stat := none
  content : Option Bytes := none
  deriving DecidableEq, Repr

def Stat.text (s : Stat) : Bytes :=
  digits s.dev ++ ascii ":" ++ digits s.ino ++ ascii ":" ++ digits s.mode ++ ascii ";"

def extraFileHash (fds : List Descriptor) : Option Bytes :=
  if fds = [] then some []
  else (fds.mapM fun fd : Descriptor => fd.stat.map Stat.text).map
    fun texts => hex (sum texts.flatten)

/-! ## The client -/

/-- The arguments of `Client.start`; a nil file is `none`. -/
structure StartCall where
  executorID : Bytes
  processID : Bytes
  spec : StartSpec
  stdin : Descriptor := {}
  stdout : Descriptor := {}
  stderr : Descriptor := {}
  drainGroup : Bool := false
  extraFiles : List (Option Descriptor) := []
  deriving DecidableEq, Repr

inductive RequestError
  | tooManyFiles (count : Nat)
  | nilFile
  | statFile
  | specTooLarge (size limit : Nat)
  | messageTooLarge (size limit : Nat)
  deriving DecidableEq, Repr

/-- A message on the socket: the bytes of the frame and the descriptors attached to it. -/
structure Message where
  frame : Bytes
  fds : List Descriptor
  deriving DecidableEq, Repr

def putUint32 (n : Nat) : Bytes :=
  [UInt8.ofNat (n / 2 ^ 24), UInt8.ofNat (n / 2 ^ 16), UInt8.ofNat (n / 2 ^ 8), UInt8.ofNat n]

def writeMsg (r : Request) (fds : List Descriptor) : Except RequestError Message :=
  if maxMessageSize < r.marshal.length then
    .error (.messageTooLarge r.marshal.length maxMessageSize)
  else .ok ⟨putUint32 r.marshal.length ++ r.marshal, fds⟩

/-- The request of `start` with its specification inline. -/
def StartCall.request (call : StartCall) (fileHash : Bytes) : Request where
  extraFileCount := call.extraFiles.length
  extraFileHash := fileHash
  drainGroup := call.drainGroup
  operation := .start
  executorID := call.executorID
  processID := call.processID
  specHash := specHash sum call.spec
  argv := call.spec.argv
  dir := call.spec.dir
  env := call.spec.env

/-- The request when the specification is in the last descriptor. -/
def Request.offload (r : Request) : Request :=
  { r with specInFD := true, argv := none, dir := [], env := none }

/-- The sealed memory file of a specification. -/
def newStartSpecFile (payload : Bytes) : Descriptor where
  content := some payload

/-- `Client.start` up to the message it sends. -/
def StartCall.send (call : StartCall) : Except RequestError Message := do
  if maxExtraFiles < call.extraFiles.length then throw (.tooManyFiles call.extraFiles.length)
  let some files := call.extraFiles.mapM id | throw .nilFile
  let some fileHash := extraFileHash sum files | throw .statFile
  let fds := [call.stdin, call.stdout, call.stderr] ++ files
  let req := call.request sum fileHash
  if maxMessageSize < req.marshal.length then
    if maxStartSpecSize < call.spec.marshal.length then
      throw (.specTooLarge call.spec.marshal.length maxStartSpecSize)
    else writeMsg req.offload (fds ++ [newStartSpecFile call.spec.marshal])
  else writeMsg req fds

/-! ## The supervisor -/

inductive MessageError
  | truncated
  | short (size : Nat)
  | lengthMismatch (header payload : Nat)
  | decode
  deriving DecidableEq, Repr

/-- `binary.BigEndian.Uint32` and the bytes after it. -/
def uint32 : Bytes → Option (Nat × Bytes)
  | a :: b :: c :: d :: payload =>
    some (((a.toNat * 2 ^ 8 + b.toNat) * 2 ^ 8 + c.toNat) * 2 ^ 8 + d.toNat, payload)
  | _ => none

def readMsg (frame : Bytes) : Except MessageError Request :=
  if 4 + maxMessageSize < frame.length then .error .truncated
  else
    match uint32 frame with
    | none => .error (.short frame.length)
    | some (need, payload) =>
      if need ≠ payload.length then .error (.lengthMismatch need payload.length)
      else
        match Request.unmarshal payload with
        | none => .error .decode
        | some r => .ok r

/-- Why `start` refuses a request; `detail` is the text of an error of the system. -/
inductive StartError
  | needsProcessID
  | extraFileCount
  | specFD
  | specUnreadable (detail : String)
  | fdCount
  | extraFiles
  | needsArgv
  | fingerprint
  | reused
  | draining
  | fork (detail : String)
  | childPID (detail : String)
  deriving DecidableEq, Repr

def StartError.message : StartError → String
  | .needsProcessID => "start needs process_id"
  | .extraFileCount => "invalid extra file count"
  | .specFD => "start specification fd count mismatch or conflicting inline specification"
  | .specUnreadable detail => "invalid start specification fd: " ++ detail
  | .fdCount => "start file descriptor count mismatch"
  | .extraFiles => "invalid extra file fingerprint"
  | .needsArgv => "start needs argv"
  | .fingerprint => "invalid process specification fingerprint"
  | .reused => "process id reused with different specification"
  | .draining => "executor is draining"
  | .fork detail => "fork: " ++ detail
  | .childPID detail => "resolve child PID: " ++ detail

def readStartSpec (fd : Descriptor) : Except StartError StartSpec :=
  match fd.content with
  | none => .error (.specUnreadable "read")
  | some data =>
    if maxStartSpecSize < data.length then .error (.specUnreadable "message too large")
    else
      match StartSpec.unmarshal data with
      | none => .error (.specUnreadable "decode")
      | some spec => .ok spec

/-- The specification `start` finds, inline or in the last descriptor. -/
def receiveSpec (r : Request) (fds : List Descriptor) (childFileCount : Nat) :
    Except StartError StartSpec :=
  if r.specInFD then
    if fds.length ≠ childFileCount + 1 ∨ r.argv.getD [] ≠ [] ∨ r.dir ≠ [] ∨ r.env.getD [] ≠ [] then
      .error .specFD
    else
      match fds[childFileCount]? with
      | none => .error .specFD
      | some fd => readStartSpec fd
  else if fds.length ≠ childFileCount then .error .fdCount
  else .ok ⟨r.argv, r.dir, r.env⟩

/-- `start` up to the lock: the specification and the hash of the extra files. -/
def checkStart (r : Request) (fds : List Descriptor) : Except StartError (StartSpec × Bytes) :=
  if r.processID = [] then .error .needsProcessID
  else if r.extraFileCount < 0 ∨ (maxExtraFiles : Int) < r.extraFileCount then
    .error .extraFileCount
  else
    match receiveSpec r fds (3 + r.extraFileCount.toNat) with
    | .error e => .error e
    | .ok spec =>
      match extraFileHash sum ((fds.take (3 + r.extraFileCount.toNat)).drop 3) with
      | none => .error .extraFiles
      | some fileHash =>
        if fileHash ≠ r.extraFileHash then .error .extraFiles
        else if spec.argv.getD [] = [] then .error .needsArgv
        else if r.specHash ≠ specHash sum spec then .error .fingerprint
        else .ok (spec, fileHash)

/-! ## The way of a message -/

/-- A slice that was omitted when empty: an empty one comes back nil. -/
def receivedStrings (ss : Option (List Bytes)) : Option (List Bytes) :=
  if ss.getD [] = [] then none else ss.map (·.map repair)

/-- The request the supervisor decodes. -/
def Request.received (r : Request) : Request :=
  { r with
    extraFileHash := repair r.extraFileHash
    operation := .ofText (repair r.operation.text)
    executorID := repair r.executorID
    processID := repair r.processID
    specHash := repair r.specHash
    argv := receivedStrings r.argv
    dir := repair r.dir
    env := receivedStrings r.env }

/-- The specification the supervisor decodes from the last descriptor. -/
def StartSpec.received (spec : StartSpec) : StartSpec where
  argv := spec.argv.map (·.map repair)
  dir := repair spec.dir
  env := spec.env.map (·.map repair)

theorem repair_omitted (s : Bytes) : (if s = [] then [] else repair s) = repair s := by
  split_ifs with h
  · rw [h]
    rfl
  · rfl

theorem integral_request (r : Request) : integral (encodeFields requestFields r) = true := by
  refine integral_encodeFields ?_
  simp only [requestFields, forall_mem_cons]
  exact ⟨integral_count, integral_string, integral_flag, integral_string,
    integral_string, integral_string, integral_string, integral_flag,
    integral_strings, integral_string, integral_strings, integral_count, by simp⟩

theorem integral_spec (spec : StartSpec) : integral (encodeFields specFields spec) = true := by
  refine integral_encodeFields ?_
  simp only [specFields, forall_mem_cons]
  exact ⟨integral_strings, integral_string, integral_strings, by simp⟩

/-- A count the 64 bits of an integer hold. -/
def Fits (n : Int) : Prop := -(2 ^ 63) ≤ n ∧ n < 2 ^ 63

/-- The specification of a request that has it inline. -/
def Request.spec (r : Request) : StartSpec := ⟨r.argv, r.dir, r.env⟩

variable {r : Request} {spec : StartSpec} {fds : List Descriptor} {m : Message}

theorem Request.unmarshal_marshal (hc : Fits r.extraFileCount) (hs : Fits r.signal) :
    Request.unmarshal r.marshal = some r.received := by
  rw [Request.unmarshal, Request.marshal, parse_render (integral_request r), Option.bind_some,
    decodeFields_encodeFields (by decide) (by decide)]
  simp only [requestFields, foldlM_cons, foldlM_nil, Option.bind_eq_bind, Option.bind_some,
    carry_count _ hc, carry_count _ hs, carry_string_always, carry_string,
    carry_flag, carry_strings]
  have hzero : ∀ n : Int, (if n = 0 then 0 else n) = n := by
    intro n
    split_ifs with h
    · exact h.symm
    · rfl
  have hflag : ∀ b : Bool, (if b = true then true else false) = b := by decide
  have halways : ∀ s : Bytes, (if false = true ∧ s = [] then [] else repair s) = repair s :=
    fun s => if_neg (by simp)
  simp only [hzero, hflag, halways, repair_omitted, true_and]
  rfl

theorem StartSpec.unmarshal_marshal (spec : StartSpec) :
    StartSpec.unmarshal spec.marshal = some spec.received := by
  rw [StartSpec.unmarshal, StartSpec.marshal, parse_render (integral_spec spec), Option.bind_some,
    decodeFields_encodeFields (by decide) (by decide)]
  simp only [specFields, foldlM_cons, foldlM_nil, Option.bind_eq_bind, Option.bind_some,
    carry_string_always, carry_strings, Bool.false_eq_true, false_and, if_false]
  rfl

theorem uint32_putUint32 {n : Nat} (h : n < 2 ^ 32) (payload : Bytes) :
    uint32 (putUint32 n ++ payload) = some (n, payload) := by
  simp only [putUint32, cons_append, nil_append, uint32, UInt8.toNat_ofNat']
  congr 2
  omega

theorem readMsg_writeMsg (hc : Fits r.extraFileCount)
    (hs : Fits r.signal) (h : writeMsg r fds = .ok m) : readMsg m.frame = .ok r.received ∧
    m.fds = fds := by
  unfold writeMsg at h
  by_cases hsize : maxMessageSize < r.marshal.length
  · rw [if_pos hsize] at h
    cases h
  · rw [if_neg hsize] at h
    cases h
    have hmax : maxMessageSize < 2 ^ 32 := by decide
    have hlen : ¬4 + maxMessageSize < (putUint32 r.marshal.length ++ r.marshal).length := by
      have : (putUint32 r.marshal.length).length = 4 := rfl
      rw [length_append]
      omega
    refine ⟨?_, rfl⟩
    rw [readMsg, if_neg hlen, uint32_putUint32 (by omega)]
    simp [Request.unmarshal_marshal hc hs]

/-! ## Fingerprints -/

theorem hexDigit_lt : ∀ n, n < 16 → (hexDigit n).toNat < 0x80 := by decide

@[simp] theorem repair_hex (d : Bytes) : repair (hex d) = hex d := by
  refine repair_of_ascii fun b hb => ?_
  obtain ⟨x, -, hx⟩ := mem_flatMap.mp hb
  have hlt := x.toNat_lt
  simp only [mem_cons, not_mem_nil, or_false] at hx
  rcases hx with rfl | rfl
  · exact hexDigit_lt _ (by omega)
  · exact hexDigit_lt _ (by omega)

theorem hexDigit_injOn {m n : Nat} (hm : m < 16) (hn : n < 16) (h : hexDigit m = hexDigit n) :
    m = n := by
  have hv := congrArg hexValue h
  rw [hexValue_hexDigit m hm, hexValue_hexDigit n hn] at hv
  exact Option.some.inj hv

theorem hex_injective : Function.Injective hex := by
  intro d
  induction d with
  | nil =>
    intro e h
    cases e with
    | nil => rfl
    | cons y e => simp [hex] at h
  | cons x d ih =>
    intro e h
    cases e with
    | nil => simp [hex] at h
    | cons y e =>
      have hx := x.toNat_lt
      have hy := y.toNat_lt
      simp only [hex, flatMap_cons, cons_append, nil_append, cons.injEq] at h
      have h₁ := hexDigit_injOn (by omega) (by omega) h.1
      have h₂ := hexDigit_injOn (by omega) (by omega) h.2.1
      rw [UInt8.toNat_inj.mp (show x.toNat = y.toNat by omega), ih h.2.2]

/-- A specification that needs no repair. -/
def StartSpec.Valid (spec : StartSpec) : Prop :=
  (∀ s ∈ spec.argv.getD [], valid s = true) ∧ valid spec.dir = true ∧
    ∀ s ∈ spec.env.getD [], valid s = true

instance StartSpec.decidableValid (spec : StartSpec) : Decidable spec.Valid := by
  unfold StartSpec.Valid
  infer_instance

theorem map_repair_iff (ss : Option (List Bytes)) :
    ss.map (·.map repair) = ss ↔ ∀ s ∈ ss.getD [], valid s = true := by
  cases ss with
  | none => simp
  | some ss =>
    simp only [Option.map_some, Option.some.injEq, Option.getD_some, ← repair_eq_self_iff]
    rw [show (ss.map repair = ss) = (ss.map repair = ss.map id) by rw [map_id]]
    exact map_inj_left

theorem StartSpec.received_eq_self_iff : spec.received = spec ↔ spec.Valid := by
  obtain ⟨argv, dir, env⟩ := spec
  simp only [StartSpec.received, StartSpec.mk.injEq, StartSpec.Valid, map_repair_iff,
    repair_eq_self_iff]

theorem repaired_spec (spec : StartSpec) :
    repaired (encodeFields specFields spec) = encodeFields specFields spec.received := by
  have hstrings : ∀ ss : Option (List Bytes), repaired (ofStrings ss) =
      ofStrings (ss.map (·.map repair)) := by
    intro ss
    cases ss with
    | none => rfl
    | some ss => simp only [ofStrings, repaired, repairedElems_map_str, Option.map_some]
  have h₁ : repair (ascii "argv") = ascii "argv" := by decide
  have h₂ : repair (ascii "dir") = ascii "dir" := by decide
  have h₃ : repair (ascii "env") = ascii "env" := by decide
  simp [encodeFields, specFields, strings, string, repaired, repairedMembers, hstrings, h₁, h₂, h₃,
    StartSpec.received]

theorem ofStrings_injective : Function.Injective ofStrings := by
  intro a b h
  cases a <;> cases b <;> simp only [ofStrings, reduceCtorEq, Json.arr.injEq] at h ⊢
  exact congrArg some (map_injective_iff.mpr (fun _ _ h => Json.str.inj h) h)

theorem encode_spec_injective : Function.Injective (encodeFields specFields) := by
  rintro ⟨a₁, d₁, e₁⟩ ⟨a₂, d₂, e₂⟩ h
  simp only [encodeFields, specFields, strings, string, Bool.false_eq_true, false_and, if_false,
    filterMap_cons, filterMap_nil, Option.map_some, Json.obj.injEq, cons.injEq, Prod.mk.injEq,
    true_and, and_true, Json.str.injEq] at h
  rw [ofStrings_injective h.1, h.2.1, ofStrings_injective h.2.2]

variable {sum}

/-- Two specifications whose different texts have one hash. -/
def Collision (sum : Bytes → Bytes) (a b : StartSpec) : Prop :=
  a.marshal ≠ b.marshal ∧ sum a.marshal = sum b.marshal

/-- A fingerprint tells a specification that needs no repair from every other one, as far as the
hash does. -/
theorem spec_eq_or_collision {a b : StartSpec} (hb : b.Valid)
    (h : specHash sum a = specHash sum b) : a = b ∨ Collision sum a b := by
  by_cases hmarshal : a.marshal = b.marshal
  · have hfix : repaired (encodeFields specFields b) = encodeFields specFields b := by
      rw [repaired_spec, StartSpec.received_eq_self_iff.mpr hb]
    exact .inl
      (encode_spec_injective (eq_of_render_eq (integral_spec a) (integral_spec b) hfix hmarshal))
  · exact .inr ⟨hmarshal, hex_injective h⟩

/-! ## What is decoded is valid -/

theorem StartSpec.valid_of_unmarshal {data : Bytes} (h : StartSpec.unmarshal data = some spec) :
    spec.Valid := by
  obtain ⟨v, hv, h⟩ := Option.bind_eq_some_iff.mp h
  refine decodeFields_invariant (P := StartSpec.Valid) ?_ (repaired_of_parse hv) (by decide) h
  simp only [specFields, forall_mem_cons]
  refine ⟨?_, ?_, ?_, by simp⟩
  all_goals
    intro r v r' hr hv hset
    obtain ⟨x, hx, rfl⟩ := Option.map_eq_some_iff.mp hset
  · exact ⟨valid_of_decodeStrings hr.1 hv hx, hr.2⟩
  · exact ⟨hr.1, valid_of_decodeString hr.2.1 hv hx, hr.2.2⟩
  · exact ⟨hr.1, hr.2.1, valid_of_decodeStrings hr.2.2 hv hx⟩

theorem Request.valid_of_unmarshal {data : Bytes} (h : Request.unmarshal data = some r) :
    r.spec.Valid := by
  obtain ⟨v, hv, h⟩ := Option.bind_eq_some_iff.mp h
  refine decodeFields_invariant (P := fun r : Request => r.spec.Valid) ?_
    (repaired_of_parse hv) (by decide) h
  simp only [requestFields, forall_mem_cons]
  refine ⟨?_, ?_, ?_, ?_, ?_, ?_, ?_, ?_, ?_, ?_, ?_, ?_, by simp⟩
  all_goals
    intro r v r' hr hv hset
    obtain ⟨x, hx, rfl⟩ := Option.map_eq_some_iff.mp hset
  -- only three of the fields are part of the specification
  case refine_9 => exact ⟨valid_of_decodeStrings hr.1 hv hx, hr.2⟩
  case refine_10 => exact ⟨hr.1, valid_of_decodeString hr.2.1 hv hx, hr.2.2⟩
  case refine_11 => exact ⟨hr.1, hr.2.1, valid_of_decodeStrings hr.2.2 hv hx⟩
  all_goals exact hr

theorem readMsg_ok {frame : Bytes} (h : readMsg frame = .ok r) :
    ∃ payload, Request.unmarshal payload = some r := by
  unfold readMsg at h
  split_ifs at h
  split at h
  · cases h
  · split_ifs at h
    split at h
    · cases h
    next hr =>
    cases h
    exact ⟨_, hr⟩

theorem receiveSpec_valid {n : Nat} (hr : r.spec.Valid) (h : receiveSpec r fds n = .ok spec) :
    spec.Valid := by
  unfold receiveSpec at h
  split_ifs at h
  · split at h
    · cases h
    · unfold readStartSpec at h
      split at h
      · cases h
      · split_ifs at h
        split at h
        · cases h
        next hspec =>
        cases h
        exact StartSpec.valid_of_unmarshal hspec
  · cases h
    exact hr

/-- What the checks of `start` establish. -/
structure Checked (sum : Bytes → Bytes) (r : Request) (spec : StartSpec)
    (fileHash : Bytes) : Prop where
  id : r.processID ≠ []
  files : fileHash = r.extraFileHash
  hash : r.specHash = specHash sum spec
  valid : spec.Valid

theorem checked_of_checkStart {frame fileHash : Bytes} (hr : readMsg frame = .ok r)
    (h : checkStart sum r fds = .ok (spec, fileHash)) : Checked sum r spec fileHash := by
  obtain ⟨payload, hp⟩ := readMsg_ok hr
  unfold checkStart at h
  split_ifs at h with hid
  split at h
  · cases h
  next hspec =>
  split at h
  · cases h
  · split_ifs at h with hfiles hargv hhash
    cases h
    exact ⟨hid, not_not.mp hfiles, not_not.mp hhash,
      receiveSpec_valid (Request.valid_of_unmarshal hp) hspec⟩

/-! ## The start request -/

/-- The files and the request of a call that was sent. -/
structure StartCall.Sent (sum : Bytes → Bytes) (call : StartCall) (files : List Descriptor)
    (fileHash : Bytes) : Prop where
  count : call.extraFiles.length ≤ maxExtraFiles
  opened : call.extraFiles.mapM id = some files
  hash : extraFileHash sum files = some fileHash

/-- Whether the specification travels in the last descriptor. -/
def StartCall.offloads (sum : Bytes → Bytes) (call : StartCall) (fileHash : Bytes) : Prop :=
  maxMessageSize < (call.request sum fileHash).marshal.length

/-- The descriptors of a call. -/
abbrev StartCall.passed (call : StartCall) (files : List Descriptor) : List Descriptor :=
  [call.stdin, call.stdout, call.stderr] ++ files

theorem StartCall.length_passed (call : StartCall) (files : List Descriptor) :
    (call.passed files).length = 3 + files.length := by
  simp
  omega

/-- What a call sends: the request inline, or without its specification and with one descriptor
more. -/
theorem StartCall.send_ok {call : StartCall} (h : call.send sum = .ok m) :
    ∃ files fileHash, call.Sent sum files fileHash ∧
      (¬call.offloads sum fileHash ∧
        writeMsg (call.request sum fileHash) (call.passed files) = .ok m ∨
        call.offloads sum fileHash ∧ call.spec.marshal.length ≤ maxStartSpecSize ∧
          writeMsg (call.request sum fileHash).offload
            (call.passed files ++ [newStartSpecFile call.spec.marshal]) = .ok m) := by
  unfold StartCall.send at h
  by_cases hcount : maxExtraFiles < call.extraFiles.length
  · rw [if_pos hcount] at h
    cases h
  rw [if_neg hcount] at h
  cases hfiles : call.extraFiles.mapM id with
  | none =>
    rw [hfiles] at h
    cases h
  | some files =>
    cases hhash : extraFileHash sum files with
    | none =>
      simp only [hfiles, hhash] at h
      cases h
    | some fileHash =>
      refine ⟨files, fileHash, ⟨by omega, hfiles, hhash⟩, ?_⟩
      simp only [hfiles, hhash] at h
      by_cases hoff : call.offloads sum fileHash
      · by_cases hspec : maxStartSpecSize < call.spec.marshal.length
        · exact absurd h (by simp [show maxMessageSize < _ from hoff, hspec])
        · exact .inr ⟨hoff, by omega, by simpa [show maxMessageSize < _ from hoff, hspec] using h⟩
      · exact .inl ⟨hoff, by simpa [show ¬maxMessageSize < _ from hoff] using h⟩

theorem length_of_mapM_id {α : Type} {l : List (Option α)} {l' : List α} (h : l.mapM id = some l') :
    l'.length = l.length := by
  induction l generalizing l' with
  | nil =>
    cases h
    rfl
  | cons x l ih =>
    rw [mapM_cons] at h
    obtain ⟨y, -, h⟩ := Option.bind_eq_some_iff.mp h
    obtain ⟨ys, hys, h⟩ := Option.bind_eq_some_iff.mp h
    cases h
    rw [length_cons, length_cons, ih hys]

theorem repair_extraFileHash {files : List Descriptor} {fileHash : Bytes}
    (h : extraFileHash sum files = some fileHash) : repair fileHash = fileHash := by
  unfold extraFileHash at h
  split_ifs at h with hnil
  · cases h
    rfl
  · obtain ⟨texts, -, rfl⟩ := Option.map_eq_some_iff.mp h
    exact repair_hex _

section Arrival

variable {call : StartCall} {files : List Descriptor} {fileHash : Bytes}

/-- The specification the supervisor decodes. -/
def StartCall.arrived (call : StartCall) (offloaded : Bool) : StartSpec :=
  if offloaded then call.spec.received
  else ⟨receivedStrings call.spec.argv, repair call.spec.dir, receivedStrings call.spec.env⟩

theorem StartCall.fits (h : call.Sent sum files fileHash) :
    Fits (call.request sum fileHash).extraFileCount ∧ Fits (call.request sum fileHash).signal := by
  have := h.count
  simp only [StartCall.request, Fits, maxExtraFiles] at this ⊢
  omega

theorem getD_receivedStrings {ss : Option (List Bytes)} (h : ss.getD [] ≠ []) :
    (receivedStrings ss).getD [] ≠ [] := by
  rw [receivedStrings, if_neg h]
  cases ss with
  | none => exact h
  | some ss => simpa using h

theorem getD_received (h : spec.argv.getD [] ≠ []) : spec.received.argv.getD [] ≠ [] := by
  rw [StartSpec.received]
  cases hs : spec.argv with
  | none => rwa [hs] at h
  | some ss => simpa [hs] using h

/-- The checks before the fingerprint all pass, whichever way the specification came. -/
theorem checkStart_of_spec (h : call.Sent sum files fileHash) {rest : List Descriptor}
    (hid : r.processID ≠ []) (hcount : r.extraFileCount = call.extraFiles.length)
    (hfiles : r.extraFileHash = fileHash) (hhash : r.specHash = specHash sum call.spec)
    (hargv : spec.argv.getD [] ≠ [])
    (hspec : receiveSpec r (call.passed files ++ rest) (3 + files.length) = .ok spec) :
    checkStart sum r (call.passed files ++ rest) =
      if specHash sum call.spec = specHash sum spec then .ok (spec, fileHash)
      else .error .fingerprint := by
  have hlen := length_of_mapM_id h.opened
  have hle := h.count
  have htake : ((call.passed files ++ rest).take (3 + files.length)).drop 3 = files := by
    rw [← call.length_passed, take_left]
    rfl
  have hrange : ¬(r.extraFileCount < 0 ∨ (maxExtraFiles : Int) < r.extraFileCount) := by
    rw [hcount]
    omega
  unfold checkStart
  rw [if_neg hid, if_neg hrange, hcount, Int.toNat_natCast, ← hlen, hspec]
  simp only [htake, h.hash, hhash]
  by_cases hsame : specHash sum call.spec = specHash sum spec
  · simp [hfiles, hargv, hsame]
  · simp [hfiles, hargv, hsame]

theorem receiveSpec_inline (fileHash : Bytes) (files : List Descriptor) :
    receiveSpec (call.request sum fileHash).received (call.passed files ++ []) (3 + files.length) =
      .ok (call.arrived false) := by
  have hlen : (call.passed files ++ []).length = 3 + files.length := by
    rw [append_nil, call.length_passed]
  rw [receiveSpec, if_neg (by simp [Request.received, StartCall.request]),
    if_neg (not_not.mpr hlen)]
  rfl

theorem receiveSpec_offloaded (hsize : call.spec.marshal.length ≤ maxStartSpecSize)
    (fileHash : Bytes) (files : List Descriptor) :
    receiveSpec (call.request sum fileHash).offload.received
      (call.passed files ++ [newStartSpecFile call.spec.marshal])
      (3 + files.length) = .ok (call.arrived true) := by
  have hlen := call.length_passed files
  have hget : (call.passed files ++ [newStartSpecFile call.spec.marshal])[3 + files.length]? =
      some (newStartSpecFile call.spec.marshal) := by
    rw [← hlen, getElem?_append_right (Nat.le_refl _), Nat.sub_self]
    rfl
  have hread : readStartSpec (newStartSpecFile call.spec.marshal) = .ok call.spec.received := by
    simp only [readStartSpec, newStartSpecFile, if_neg (Nat.not_lt.mpr hsize),
      StartSpec.unmarshal_marshal]
  have hnone :
      ¬((call.passed files ++ [newStartSpecFile call.spec.marshal]).length ≠ 3 + files.length + 1 ∨
        (receivedStrings none).getD [] ≠ [] ∨ repair [] ≠ [] ∨
        (receivedStrings none).getD [] ≠ []) := by
    rw [length_append, hlen]
    rintro (h | h | h | h)
    all_goals exact h rfl
  rw [receiveSpec,
    if_pos (show (call.request sum fileHash).offload.received.specInFD = true from rfl), hget]
  exact (if_neg hnone).trans hread

/-- The request the supervisor reads, and what its checks say: everything but the fingerprint is
right. -/
theorem checkStart_send (hid : call.processID ≠ [])
    (hargv : call.spec.argv.getD [] ≠ []) (h : call.send sum = .ok m) :
    ∃ files fileHash offloaded r, call.Sent sum files fileHash ∧
      (offloaded = true ↔ call.offloads sum fileHash) ∧ readMsg m.frame = .ok r ∧
      r.executorID = repair call.executorID ∧ r.processID = repair call.processID ∧
      r.operation = .start ∧ r.drainGroup = call.drainGroup ∧ r.specHash = specHash sum call.spec ∧
      r.extraFileHash = fileHash ∧ checkStart sum r m.fds =
        if specHash sum call.spec = specHash sum (call.arrived offloaded) then
          .ok (call.arrived offloaded, fileHash)
        else .error .fingerprint := by
  have hstart : Operation.ofText (repair (ascii "start")) = .start := by decide
  obtain ⟨files, fileHash, hsent, ⟨hoff, hw⟩ | ⟨hoff, hsize, hw⟩⟩ := call.send_ok h
  · obtain ⟨hread, hfds⟩ := readMsg_writeMsg (call.fits hsent).1 (call.fits hsent).2 hw
    refine ⟨files, fileHash, false, _, hsent,
      by simp [hoff], hread, rfl, rfl, hstart, rfl, repair_hex _,
      repair_extraFileHash hsent.hash, ?_⟩
    rw [hfds, ← append_nil (call.passed files)]
    exact checkStart_of_spec hsent (mt repair_eq_nil_iff.mp hid) rfl
      (repair_extraFileHash hsent.hash)
      (repair_hex _) (getD_receivedStrings hargv) (receiveSpec_inline fileHash files)
  · obtain ⟨hread, hfds⟩ := readMsg_writeMsg (r := (call.request sum fileHash).offload)
      (call.fits hsent).1 (call.fits hsent).2 hw
    refine ⟨files, fileHash, true, _, hsent,
      by simp [hoff], hread, rfl, rfl, hstart, rfl, repair_hex _,
      repair_extraFileHash hsent.hash, ?_⟩
    rw [hfds]
    exact checkStart_of_spec hsent (mt repair_eq_nil_iff.mp hid) rfl
      (repair_extraFileHash hsent.hash)
      (repair_hex _) (getD_received hargv) (receiveSpec_offloaded hsize fileHash files)

/-! ### What arrives -/

theorem valid_receivedStrings (ss : Option (List Bytes)) :
    ∀ s ∈ (receivedStrings ss).getD [], valid s = true := by
  unfold receivedStrings
  split_ifs with h
  · simp
  · cases ss <;> simp [valid_repair]

theorem StartCall.valid_arrived (call : StartCall) (offloaded : Bool) :
    (call.arrived offloaded).Valid := by
  cases offloaded with
  | true =>
    refine StartSpec.received_eq_self_iff.mp ?_
    simp [StartCall.arrived, StartSpec.received, Option.map_map, Function.comp_def]
  | false => exact ⟨valid_receivedStrings _, valid_repair _, valid_receivedStrings _⟩

theorem arrived_eq_iff {offloaded : Bool}
    (hsum : ¬Collision sum call.spec (call.arrived offloaded)) :
    specHash sum call.spec = specHash sum (call.arrived offloaded) ↔
    call.arrived offloaded = call.spec :=
  ⟨fun h => ((spec_eq_or_collision (call.valid_arrived offloaded) h).resolve_right hsum).symm,
    fun h => by rw [h]⟩

theorem receivedStrings_eq_self_iff {ss : List Bytes} :
    receivedStrings (some ss) = some ss ↔ ss ≠ [] ∧ ∀ s ∈ ss, valid s = true := by
  unfold receivedStrings
  by_cases h : ss = []
  · simp [h]
  · rw [if_neg (by simpa using h)]
    simpa [h] using map_repair_iff (some ss)

/-- What arrives is what was sent unless something needed repair, or an empty environment was
omitted. -/
theorem arrived_eq_spec_iff {argv env : List Bytes} (hargv : call.spec.argv = some argv)
    (hne : argv ≠ []) (henv : call.spec.env = some env) (offloaded : Bool) :
    call.arrived offloaded = call.spec ↔ call.spec.Valid ∧ (env ≠ [] ∨ offloaded = true) := by
  cases offloaded with
  | true => simpa [StartCall.arrived] using StartSpec.received_eq_self_iff
  | false =>
    obtain ⟨e, p, ⟨a, d, v⟩, i, o, r, g, x⟩ := call
    simp only at hargv henv
    subst hargv henv
    simp only [StartCall.arrived, Bool.false_eq_true, if_false, StartSpec.mk.injEq, or_false,
      receivedStrings_eq_self_iff, repair_eq_self_iff, StartSpec.Valid, Option.getD_some]
    tauto

/-- **A start request arrives as it was sent.**  For a command and an explicit environment, the
supervisor accepts the request and starts exactly that command exactly when every string is valid
UTF-8 and the environment is not empty or the specification is too large for the frame. -/
theorem start_accepted_iff (hsum : ∀ offloaded, ¬Collision sum call.spec (call.arrived offloaded))
    {argv env : List Bytes} (hid : call.processID ≠ [])
    (hargv : call.spec.argv = some argv) (hne : argv ≠ []) (henv : call.spec.env = some env)
    (hsend : call.send sum = .ok m) :
    (∃ r spec fileHash, readMsg m.frame = .ok r ∧ checkStart sum r m.fds = .ok (spec, fileHash) ∧
      spec.argv.getD [] = argv ∧ spec.dir = call.spec.dir ∧ spec.env.getD [] = env) ↔
    call.spec.Valid ∧
      (env ≠ [] ∨ ∃ files fileHash, call.Sent sum files fileHash ∧ call.offloads sum fileHash) := by
  obtain ⟨files, fileHash, offloaded, r, hsent, hoff, hread, -, -, -, -, -, -, hcheck⟩ :=
    checkStart_send hid (by simpa [hargv] using hne) hsend
  have honly : (∃ files fileHash, call.Sent sum files fileHash ∧ call.offloads sum fileHash) ↔
      offloaded = true := by
    rw [hoff]
    constructor
    · rintro ⟨files', fileHash', h', ho⟩
      cases hsent.opened.symm.trans h'.opened
      cases hsent.hash.symm.trans h'.hash
      exact ho
    · exact fun ho => ⟨files, fileHash, hsent, ho⟩
  rw [honly, ← arrived_eq_spec_iff hargv hne henv offloaded, ← arrived_eq_iff (hsum offloaded)]
  constructor
  · rintro ⟨r', spec, fh, hread', hok, -⟩
    cases hread.symm.trans hread'
    by_contra hne'
    rw [hcheck, if_neg hne'] at hok
    cases hok
  · intro h
    refine ⟨r, call.arrived offloaded, fileHash, hread, by rw [hcheck, if_pos h], ?_⟩
    rw [(arrived_eq_iff (hsum offloaded)).mp h, hargv, henv]
    exact ⟨rfl, rfl, rfl⟩

end Arrival

/-- A command with its environment, sent inline. -/
def plainCall (argv env : List Bytes) : StartCall where
  executorID := ascii "e"
  processID := ascii "p"
  spec := { argv := some argv, dir := ascii "/", env := some env }

/-- What the supervisor says to a call. -/
def StartCall.verdict (call : StartCall) : Option (Except StartError (StartSpec × Bytes)) :=
  (call.send id).toOption.bind fun m =>
    (readMsg m.frame).toOption.map fun r => checkStart id r m.fds

theorem start_accepted_plain :
    ∃ m r spec fileHash, (plainCall [ascii "ls", [0xc3, 0xa9]] [ascii "A=1"]).send id = .ok m ∧
      readMsg m.frame = .ok r ∧ checkStart id r m.fds = .ok (spec, fileHash) ∧
      spec.argv.getD [] = [ascii "ls", [0xc3, 0xa9]] ∧ spec.env.getD [] = [ascii "A=1"] := by
  have hsent : ((plainCall [ascii "ls", [0xc3, 0xa9]] [ascii "A=1"]).send id).toOption.isSome =
      true := by
    decide +kernel
  obtain ⟨m, hm⟩ : ∃ m, (plainCall [ascii "ls", [0xc3, 0xa9]] [ascii "A=1"]).send id = .ok m := by
    cases h : (plainCall [ascii "ls", [0xc3, 0xa9]] [ascii "A=1"]).send id with
    | ok m => exact ⟨m, rfl⟩
    | error e =>
      rw [h] at hsent
      cases hsent
  have hvalid : (plainCall [ascii "ls", [0xc3, 0xa9]] [ascii "A=1"]).spec.Valid := by
    decide +kernel
  obtain ⟨r, spec, fileHash, hread, hcheck, hargv, -, henv⟩ :=
    (start_accepted_iff (fun _ hc => hc.1 hc.2) (by decide) rfl (by decide) rfl hm).mpr
      ⟨hvalid, .inl (by decide)⟩
  exact ⟨m, r, spec, fileHash, hm, hread, hcheck, hargv, henv⟩

/-- A byte that is no UTF-8, and an empty environment, make the supervisor refuse the request. -/
theorem start_refused :
    (plainCall [ascii "ls", [0xff]] [ascii "A=1"]).verdict = some (.error .fingerprint) ∧
      (plainCall [ascii "ls"] []).verdict = some (.error .fingerprint) := by
  decide +kernel

end Hash

end Hostel.Supervisor
