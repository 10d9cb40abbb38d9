import Orchestrator.Cmnutil
import Orchestrator.ConfigGraph

/-!
Defaults of the scheduling parameters. A missing deadline is the runtime, a
missing period the deadline; either passes through the `int` parameter of
`get_int64_value_from`.
-/

namespace Orchestrator.SchedDefaults
open Orchdata Cmnutil ParseConfig Traversal

/-- The number a key holds, if the key is there. -/
def given (obj : Json) (key : String) : Option Nat :=
  match obj.field key with
  | .int value => some value.toNat
  | _ => none

def sizes : List String := ["runtime", "deadline", "period"]

/-- The three sizes hold 64-bit non-negative values where they are given. -/
def Sized (obj : Json) : Prop :=
  ∀ key ∈ sizes, ∀ value, obj.field key = .int value → 0 ≤ value ∧ value < 2 ^ 64

/-- A key left out, or a number. -/
def isNumber : Json → Bool
  | .null | .int _ => true
  | _ => false

/-- A policy left out, or a text that names one. -/
def isPolicy : Json → Bool
  | .null => true
  | .string text => (stringToPolicy (text.takeWhile fun char => char ≠ '\x00')).isSome
  | _ => false

/-- The objects the parser takes; it exits on all others. -/
structure Accepted (obj : Json) : Prop where
  policy : isPolicy (obj.field "policy") = true
  numbers : ∀ key ∈ ["flags", "nice", "prio"] ++ sizes, isNumber (obj.field key) = true

/-- What is given is kept, what is missing is the value above it. -/
structure Inherits (obj : Json) (attr : SchedAttr) : Prop where
  runtime : attr.schedRuntime.toNat = (given obj "runtime").getD 0
  deadline : attr.schedDeadline.toNat = (given obj "deadline").getD attr.schedRuntime.toNat
  period : attr.schedPeriod.toNat = (given obj "period").getD attr.schedDeadline.toNat

/-- A given value that `json_object_get_int64` can return, or a default that is an `int`. -/
def Kept (obj : Json) (key : String) (default : Nat) : Prop :=
  match given obj key with
  | some value => value < 2 ^ 63
  | none => default < 2 ^ 31

/-- No given value saturates, and the value a missing key is to have is an `int`. -/
structure Fits (obj : Json) : Prop where
  runtime : Kept obj "runtime" 0
  deadline : Kept obj "deadline" ((given obj "runtime").getD 0)
  period : Kept obj "period" ((given obj "deadline").getD ((given obj "runtime").getD 0))

section Values
variable {obj : Json} {key : String}

theorem get_int_ok_iff (default : Int) :
    (∃ value, getIntValueFrom obj key true default = .ok value) ↔
      isNumber (obj.field key) = true := by
  cases shape : obj.field key <;> simp [getIntValueFrom, getInObject, isNumber, shape, bind, Except.bind]

theorem get_int64_ok_iff (default : Int) :
    (∃ value, getInt64ValueFrom obj key true default = .ok value) ↔
      isNumber (obj.field key) = true := by
  cases shape : obj.field key <;>
    simp [getInt64ValueFrom, getInObject, isNumber, shape, bind, Except.bind]

theorem get_string_ok {default : Option (List Char)} {value : Option (List Char)}
    (run : getStringValueFrom obj key true default = .ok value) :
    (obj.field key = .null ∧ value = default) ∨
      ∃ text, obj.field key = .string text ∧
        value = some (text.takeWhile fun char => char ≠ '\x00') := by
  cases shape : obj.field key <;>
    simp [getStringValueFrom, getInObject, shape, bind, Except.bind] at run ⊢ <;> exact run.symm

theorem get_int64_missing (missing : obj.field key = .null) (default : Int) :
    getInt64ValueFrom obj key true default = .ok (toInt32 default) := by
  simp [getInt64ValueFrom, getInObject, missing, bind, Except.bind]

/-- `int` values survive the way through the parameter, larger ones do not. -/
theorem int_default_iff {default : Nat} (signed : default < 2 ^ 63) :
    (toUInt64 (toInt32 default)).toNat = default ↔ default < 2 ^ 31 := by
  have stored := to_uint64_mod (toInt32 default)
  have cut : toInt32 default = Int.bmod default 4294967296 := rfl
  rw [Int.bmod_def] at cut
  push_cast at cut
  split_ifs at cut <;> omega

/-- `json_object_get_int64` of a non-negative value. -/
theorem saturated_iff {value : Int} (positive : 0 ≤ value) :
    (toUInt64 (max (-9223372036854775808) (min value 9223372036854775807))).toNat = value.toNat ↔
      value.toNat < 2 ^ 63 := by
  have stored := to_uint64_mod (max (-9223372036854775808) (min value 9223372036854775807))
  omega

theorem get_int64_keeps_iff (sized : Sized obj) (member : key ∈ sizes) {default : Nat}
    (signed : default < 2 ^ 63) {value : Int}
    (run : getInt64ValueFrom obj key true default = .ok value) :
    (toUInt64 value).toNat = (given obj key).getD default ↔ Kept obj key default := by
  cases shape : obj.field key with
  | null =>
      rw [get_int64_missing shape] at run
      rw [← Except.ok.inj run]
      simpa [given, Kept, shape] using int_default_iff signed
  | int number =>
      simp [getInt64ValueFrom, getInObject, shape, bind, Except.bind] at run
      subst run
      simpa [given, Kept, shape] using saturated_iff (sized key member number shape).1
  | _ => simp [getInt64ValueFrom, getInObject, shape, bind, Except.bind] at run

theorem kept_lt {default : Nat} (kept : Kept obj key default) :
    (given obj key).getD default < 2 ^ 63 := by
  unfold Kept at kept
  cases shape : given obj key with
  | none =>
      rw [shape] at kept
      exact lt_trans kept (by decide)
  | some value =>
      rw [shape] at kept
      exact kept

end Values

/-- A successful call read the three sizes in turn, each default the size above it. -/
theorem parse_scheduling_data_reads {obj : Json} {conts : Containers} {data : Containers × Nat}
    (run : parseSchedulingData obj conts = .ok data) :
    ∃ runtime deadline period,
      getInt64ValueFrom obj "runtime" true 0 = .ok runtime ∧
      getInt64ValueFrom obj "deadline" true (toUInt64 runtime).toNat = .ok deadline ∧
      getInt64ValueFrom obj "period" true (toUInt64 deadline).toNat = .ok period ∧
      (data.1.attrAt data.2).schedRuntime = toUInt64 runtime ∧
      (data.1.attrAt data.2).schedDeadline = toUInt64 deadline ∧
      (data.1.attrAt data.2).schedPeriod = toUInt64 period := by
  unfold parseSchedulingData at run
  obtain ⟨policy, _, run⟩ := bind_ok run
  cases policy with
  | none => cases run
  | some name =>
      dsimp only at run
      split at run
      · cases run
      · obtain ⟨_, _, run⟩ := bind_ok run
        obtain ⟨_, _, run⟩ := bind_ok run
        obtain ⟨_, _, run⟩ := bind_ok run
        obtain ⟨runtime, readRuntime, run⟩ := bind_ok run
        obtain ⟨deadline, readDeadline, run⟩ := bind_ok run
        obtain ⟨period, readPeriod, run⟩ := bind_ok run
        cases Except.ok.inj run
        exact ⟨runtime, deadline, period, readRuntime, readDeadline, readPeriod,
          by simp [Containers.newAttr], by simp [Containers.newAttr], by simp [Containers.newAttr]⟩

theorem parse_scheduling_data_ok_iff (obj : Json) (conts : Containers) :
    (∃ data, parseSchedulingData obj conts = .ok data) ↔ Accepted obj := by
  constructor
  · rintro ⟨data, run⟩
    unfold parseSchedulingData at run
    obtain ⟨policy, named, run⟩ := bind_ok run
    cases policy with
    | none => cases run
    | some name =>
        dsimp only at run
        split at run
        · cases run
        · rename_i found
          obtain ⟨_, flags, run⟩ := bind_ok run
          obtain ⟨_, nice, run⟩ := bind_ok run
          obtain ⟨_, prio, run⟩ := bind_ok run
          obtain ⟨_, runtime, run⟩ := bind_ok run
          obtain ⟨_, deadline, run⟩ := bind_ok run
          obtain ⟨_, period, run⟩ := bind_ok run
          refine ⟨?_, ?_⟩
          · rcases get_string_ok named with ⟨absent, -⟩ | ⟨text, shape, same⟩
            · rw [absent]
              rfl
            · rw [Option.some.inj same] at found
              rw [shape, isPolicy, found]
              rfl
          · simp only [sizes, List.cons_append, List.nil_append, List.forall_mem_cons]
            exact ⟨(get_int_ok_iff _).mp ⟨_, flags⟩, (get_int_ok_iff _).mp ⟨_, nice⟩,
              (get_int_ok_iff _).mp ⟨_, prio⟩, (get_int64_ok_iff _).mp ⟨_, runtime⟩,
              (get_int64_ok_iff _).mp ⟨_, deadline⟩, (get_int64_ok_iff _).mp ⟨_, period⟩, by simp⟩
  · rintro ⟨policy, numbers⟩
    simp only [sizes, List.cons_append, List.nil_append, List.forall_mem_cons] at numbers
    obtain ⟨flagsNum, niceNum, prioNum, runtimeNum, deadlineNum, periodNum, -⟩ := numbers
    obtain ⟨name, named, known⟩ : ∃ name, getStringValueFrom obj "policy" true
        (some "default".toList) = .ok (some name) ∧ (stringToPolicy name).isSome := by
      cases shape : obj.field "policy" <;> simp [isPolicy, shape] at policy
      · exact ⟨"default".toList, by simp [getStringValueFrom, getInObject, shape, bind, Except.bind],
          by decide⟩
      · exact ⟨_, by simp [getStringValueFrom, getInObject, shape, bind, Except.bind]; rfl,
          by simpa using policy⟩
    obtain ⟨schedPolicy, found⟩ := Option.isSome_iff_exists.mp known
    obtain ⟨_, flags⟩ := (get_int_ok_iff 0).mpr flagsNum
    obtain ⟨_, nice⟩ := (get_int_ok_iff 0).mpr niceNum
    obtain ⟨_, prio⟩ := (get_int_ok_iff 0).mpr prioNum
    obtain ⟨runtime, readRuntime⟩ := (get_int64_ok_iff 0).mpr runtimeNum
    obtain ⟨deadline, readDeadline⟩ := (get_int64_ok_iff (toUInt64 runtime).toNat).mpr deadlineNum
    obtain ⟨period, readPeriod⟩ := (get_int64_ok_iff (toUInt64 deadline).toNat).mpr periodNum
    unfold parseSchedulingData
    simp only [named, bind, Except.bind, found, flags, nice, prio, readRuntime, readDeadline,
      readPeriod]
    exact ⟨_, rfl⟩

/-- What the parser takes it reads, and the sizes inherit without loss exactly
where no default is wider than an `int` and no value saturates. -/
theorem scheduling_defaults_iff (obj : Json) (conts : Containers) (sized : Sized obj) :
    ((∃ data, parseSchedulingData obj conts = .ok data) ↔ Accepted obj) ∧
      ∀ data, parseSchedulingData obj conts = .ok data →
        (Inherits obj (data.1.attrAt data.2) ↔ Fits obj) := by
  refine ⟨parse_scheduling_data_ok_iff obj conts, fun data run => ?_⟩
  obtain ⟨runtime, deadline, period, readRuntime, readDeadline, readPeriod, sameRuntime,
    sameDeadline, samePeriod⟩ := parse_scheduling_data_reads run
  have first := get_int64_keeps_iff sized (by simp [sizes]) (by decide) readRuntime
  constructor
  · rintro ⟨keptRuntime, keptDeadline, keptPeriod⟩
    rw [sameRuntime] at keptRuntime keptDeadline
    rw [sameDeadline] at keptDeadline keptPeriod
    rw [samePeriod] at keptPeriod
    have fitsRuntime := first.mp keptRuntime
    have fitsDeadline := (get_int64_keeps_iff sized (by simp [sizes])
      (keptRuntime ▸ kept_lt fitsRuntime) readDeadline).mp keptDeadline
    have fitsPeriod := (get_int64_keeps_iff sized (by simp [sizes])
      (keptDeadline ▸ kept_lt fitsDeadline) readPeriod).mp keptPeriod
    rw [keptDeadline] at fitsPeriod
    rw [keptRuntime] at fitsDeadline fitsPeriod
    exact ⟨fitsRuntime, fitsDeadline, fitsPeriod⟩
  · rintro ⟨fitsRuntime, fitsDeadline, fitsPeriod⟩
    have keptRuntime := first.mpr fitsRuntime
    rw [← keptRuntime] at fitsDeadline fitsPeriod
    have keptDeadline := (get_int64_keeps_iff sized (by simp [sizes])
      (keptRuntime ▸ kept_lt fitsRuntime) readDeadline).mpr fitsDeadline
    rw [← keptDeadline] at fitsPeriod
    have keptPeriod := (get_int64_keeps_iff sized (by simp [sizes])
      (keptDeadline ▸ kept_lt fitsDeadline) readPeriod).mpr fitsPeriod
    refine ⟨?_, ?_, ?_⟩
    · rw [sameRuntime, keptRuntime]
    · rw [sameDeadline, sameRuntime, keptDeadline]
    · rw [samePeriod, sameDeadline, keptPeriod]

/-- A runtime of three seconds, the rest left out. -/
def threeSeconds : Json := .object [("runtime", .int 3000000000)]

theorem three_seconds_sized : Sized threeSeconds := by
  intro key member value shape
  simp only [sizes, List.mem_cons, List.not_mem_nil, or_false] at member
  rcases member with rfl | rfl | rfl <;>
    simp [threeSeconds, Json.field, List.lookup_cons] at shape
  subst shape
  decide

theorem three_seconds_accepted : Accepted threeSeconds :=
  ⟨by decide, by decide⟩

theorem three_seconds_loses :
    Sized threeSeconds ∧ ∃ data, parseSchedulingData threeSeconds {} = .ok data ∧
      (data.1.attrAt data.2).schedDeadline = 18446744072414584320 ∧
      ¬ Inherits threeSeconds (data.1.attrAt data.2) := by
  obtain ⟨data, run⟩ := (parse_scheduling_data_ok_iff threeSeconds {}).mpr three_seconds_accepted
  obtain ⟨runtime, deadline, _, readRuntime, readDeadline, _, -, same, -⟩ :=
    parse_scheduling_data_reads run
  have three : runtime = 3000000000 := (Except.ok.inj readRuntime).symm
  rw [get_int64_missing rfl, three] at readDeadline
  rw [← Except.ok.inj readDeadline] at same
  have wrapped : toUInt64 (toInt32 (toUInt64 3000000000).toNat) = 18446744072414584320 := by decide
  rw [wrapped] at same
  refine ⟨three_seconds_sized, data, run, same, fun inherits => ?_⟩
  have lost := inherits.deadline
  rw [same, inherits.runtime] at lost
  exact absurd lost (by decide)

/-- A runtime of two seconds, and the same as the period. -/
def twoSeconds : Json := .object [("runtime", .int 2000000000), ("period", .int 2000000000)]

theorem two_seconds_sized : Sized twoSeconds := by
  intro key member value shape
  simp only [sizes, List.mem_cons, List.not_mem_nil, or_false] at member
  rcases member with rfl | rfl | rfl <;>
    simp [twoSeconds, Json.field, List.lookup_cons] at shape
  · subst shape
    decide
  · subst shape
    decide

theorem scheduling_defaults_two_seconds :
    ∃ data, parseSchedulingData twoSeconds {} = .ok data ∧
      Inherits twoSeconds (data.1.attrAt data.2) := by
  obtain ⟨accepts, inherits⟩ := scheduling_defaults_iff twoSeconds {} two_seconds_sized
  obtain ⟨data, run⟩ := accepts.mpr ⟨by decide, by decide⟩
  refine ⟨data, run, (inherits data run).mpr ⟨?_, ?_, ?_⟩⟩
  · show (2000000000 : Nat) < 2 ^ 63
    decide
  · show (2000000000 : Nat) < 2 ^ 31
    decide
  · show (2000000000 : Nat) < 2 ^ 63
    decide

end Orchestrator.SchedDefaults
