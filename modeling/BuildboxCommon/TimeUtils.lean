import BuildboxCommon.Exceptions
import BuildboxCommon.Merklize.FromDigest

set_option autoImplicit false

namespace BuildboxCommon

structure TimePoint where
  count : Int
  range : -2 ^ 63 ≤ count ∧ count < 2 ^ 63
deriving DecidableEq

namespace TimePoint

-- Beyond its range a signed integer overflows.
def ofNanoseconds (count : Int) : Except Exn TimePoint :=
  if range : -2 ^ 63 ≤ count ∧ count < 2 ^ 63 then .ok ⟨count, range⟩ else .error .undefined

def fromTimeT (seconds : Int) : Except Exn TimePoint := ofNanoseconds (seconds * 1000000000)

def plus (t : TimePoint) (microseconds : Int) : Except Exn TimePoint := ofNanoseconds (t.count + microseconds * 1000)

-- A `duration_cast` cuts off towards the epoch.
def microseconds (t : TimePoint) : Int := t.count.tdiv 1000

theorem microseconds_cases (t : TimePoint) :
    0 ≤ t.count ∧ t.microseconds = t.count / 1000 ∨ t.count < 0 ∧ t.microseconds = -(-t.count / 1000) := by
  by_cases sign : 0 ≤ t.count
  next => exact .inl ⟨sign, Int.tdiv_eq_ediv_of_nonneg sign⟩
  next =>
    refine .inr ⟨by omega, ?_⟩
    rw [microseconds, ← Int.tdiv_eq_ediv_of_nonneg (by omega : 0 ≤ -t.count), Int.neg_tdiv, neg_neg]

def truncate (t : TimePoint) : TimePoint where
  count := t.microseconds * 1000
  range := by
    have range := t.range
    obtain ⟨sign, microseconds⟩ | ⟨sign, microseconds⟩ := t.microseconds_cases <;> omega

def Fractional (t : TimePoint) : Prop := t.count < 0 ∧ 1000 ≤ -t.count % 1000000000

theorem seconds_range {t : TimePoint} (full : ¬t.Fractional) :
    -2 ^ 63 ≤ t.truncate.count / 1000000000 * 1000000000 := by
  have range := t.range
  have whole : t.truncate.count = t.microseconds * 1000 := rfl
  unfold Fractional at full
  obtain ⟨sign, microseconds⟩ | ⟨sign, microseconds⟩ := t.microseconds_cases <;> omega

-- What `parse_timestamp` and `getMtimeTimepoint` both compute.
def ofParts (seconds nanos : Int) : Except Exn TimePoint :=
  match fromTimeT seconds with
  | .error e => .error e
  | .ok whole => whole.plus (nanos.tdiv 1000)

theorem ofParts_ok_iff {seconds nanos : Int} {t : TimePoint} (nonneg : 0 ≤ nanos) (below : nanos < 1000000000)
    (instant : seconds * 1000000000 + nanos = t.truncate.count) :
    ofParts seconds nanos = .ok t.truncate ↔ -2 ^ 63 ≤ seconds * 1000000000 := by
  have range := t.truncate.range
  have cut : nanos.tdiv 1000 * 1000 = nanos := by
    rw [Int.tdiv_eq_ediv_of_nonneg nonneg]
    have whole : t.truncate.count = t.microseconds * 1000 := rfl
    omega
  by_cases start : -2 ^ 63 ≤ seconds * 1000000000
  next =>
    have first : fromTimeT seconds = .ok ⟨seconds * 1000000000, start, by omega⟩ := dif_pos _
    have second : plus ⟨seconds * 1000000000, start, by omega⟩ (nanos.tdiv 1000) = .ok t.truncate := by
      simp only [plus, ofNanoseconds, cut, instant, dif_pos range]
    simp only [ofParts, first, second, start]
  next =>
    have first : fromTimeT seconds = .error .undefined := dif_neg fun range => start range.1
    simp only [ofParts, first, start, reduceCtorEq]

end TimePoint

structure Timespec where
  tvSec : Int
  tvNsec : Int
deriving DecidableEq

namespace Timespec

def instant (time : Timespec) : Int := time.tvSec * 1000000000 + time.tvNsec

def Valid (time : Timespec) : Prop := 0 ≤ time.tvNsec ∧ time.tvNsec < 1000000000

instance decidableValid (time : Timespec) : Decidable time.Valid := inferInstanceAs (Decidable (_ ∧ _))

def ofInstant (count : Int) : Timespec := ⟨count / 1000000000, count % 1000000000⟩

theorem valid_ofInstant (count : Int) : (ofInstant count).Valid := by
  simp only [Valid, ofInstant]
  omega

@[simp] theorem instant_ofInstant (count : Int) : (ofInstant count).instant = count := by
  simp only [instant, ofInstant]
  omega

end Timespec

def Timestamp.instant (timestamp : Timestamp) : Int := timestamp.seconds * 1000000000 + timestamp.nanos

-- `MicrosecondsToTimestamp` of Protobuf, from the beginning of the year 1 to the end of the year 9999.
structure TimeUtil where
  microsecondsToTimestamp : Int → Timestamp
  instant : ∀ usec, -62135596800000000 ≤ usec → usec < 253402300800000000 →
    (microsecondsToTimestamp usec).instant = usec * 1000
  normal : ∀ usec, -62135596800000000 ≤ usec → usec < 253402300800000000 →
    0 ≤ (microsecondsToTimestamp usec).nanos ∧ (microsecondsToTimestamp usec).nanos < 1000000000

def TimeUtil.normalized : TimeUtil where
  microsecondsToTimestamp usec := ⟨usec / 1000000, usec % 1000000 * 1000⟩
  instant usec _ _ := by
    simp only [Timestamp.instant]
    omega
  normal usec _ _ := by
    dsimp only
    omega

namespace TimeUtils

open TimePoint

variable (util : TimeUtil) (t : TimePoint)

def makeTimestamp (mtime : TimePoint) : Timestamp := util.microsecondsToTimestamp mtime.microseconds

def parseTimestamp (timestamp : Timestamp) : Except Exn TimePoint := ofParts timestamp.seconds timestamp.nanos

def makeTimespec (timepoint : TimePoint) : Timespec :=
  let usec := timepoint.microseconds
  ⟨usec.tdiv 1000000, usec.tmod 1000000 * 1000⟩

theorem microseconds_range : -62135596800000000 ≤ t.microseconds ∧ t.microseconds < 253402300800000000 := by
  have range := t.range
  obtain ⟨sign, microseconds⟩ | ⟨sign, microseconds⟩ := t.microseconds_cases <;> omega

theorem instant_makeTimestamp : (makeTimestamp util t).instant = t.truncate.count :=
  util.instant _ (microseconds_range t).1 (microseconds_range t).2

theorem parseTimestamp_makeTimestamp_iff :
    parseTimestamp (makeTimestamp util t) = .ok t.truncate ↔ -2 ^ 63 ≤ t.truncate.count / 1000000000 * 1000000000 := by
  have instant := instant_makeTimestamp util t
  have normal := util.normal _ (microseconds_range t).1 (microseconds_range t).2
  have seconds : (makeTimestamp util t).seconds = t.truncate.count / 1000000000 := by
    rw [← instant, Timestamp.instant, makeTimestamp]
    omega
  rw [← seconds]
  exact ofParts_ok_iff normal.1 normal.2 instant

theorem instant_makeTimespec : (makeTimespec t).instant = t.truncate.count := by
  have split := Int.mul_tdiv_add_tmod t.microseconds 1000000
  have whole : t.truncate.count = t.microseconds * 1000 := rfl
  simp only [Timespec.instant, makeTimespec]
  omega

theorem valid_makeTimespec_iff : (makeTimespec t).Valid ↔ ¬t.Fractional := by
  have rest : t.microseconds.tmod 1000000 = if 0 ≤ t.microseconds then t.microseconds % 1000000
      else -(-t.microseconds % 1000000) := by
    split_ifs with sign
    next => exact Int.tmod_eq_emod_of_nonneg sign
    next => rw [← Int.tmod_eq_emod_of_nonneg (by omega : 0 ≤ -t.microseconds), Int.neg_tmod, neg_neg]
  simp only [Timespec.Valid, makeTimespec, Fractional, rest]
  obtain ⟨sign, microseconds⟩ | ⟨sign, microseconds⟩ := t.microseconds_cases <;> split_ifs <;> omega

end TimeUtils

end BuildboxCommon
