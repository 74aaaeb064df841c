import BuildboxCommon.Exceptions
import Mathlib.Algebra.Order.Ring.Int

set_option autoImplicit false

namespace BuildboxCommon.SystemUtils

open ByteString

def eintr : Nat := 4

inductive Ending where
  | exited (status : UInt8)
  | signaled (signal : Nat)
deriving DecidableEq

-- The convention of Bash.
def Ending.exitCode : Ending → Int
  | .exited status => status.toNat
  | .signaled signal => 128 + signal

inductive Waited where
  | failed (errno : Nat)
  | ended (ending : Ending)
  | unexpected (status : Int)
deriving DecidableEq

def waitPidOrSignal : Waited → Except Exn Int
  | .failed errno =>
    -- A signal was caught before the child terminated.
    if errno = eintr then .ok (-eintr) else .error (.systemError errno (text "Error in waitpid()"))
  | .ended ending => .ok ending.exitCode
  | .unexpected status =>
    .error (.runtimeError (text "`waitpid()` returned an unexpected status: " ++ text (toString status)))

def waitPid (answer : Waited) : Except Exn (Option Int) := do
  let exitCode ← waitPidOrSignal answer
  if exitCode = -eintr then return none
  return some exitCode

theorem Ending.exitCode_nonneg (ending : Ending) : 0 ≤ ending.exitCode := by
  cases ending <;> simp only [exitCode] <;> omega

theorem Ending.exitCode_eq_zero {ending : Ending} : ending.exitCode = 0 ↔ ending = .exited 0 := by
  cases ending with
  | exited status =>
    have zero : status.toNat = 0 ↔ status = 0 := by
      rw [← UInt8.toNat_inj]
      rfl
    simp [exitCode, zero]
  | signaled signal =>
    simp only [exitCode, reduceCtorEq, iff_false]
    omega

theorem waitPidOrSignal_cases {answer : Waited} {exitCode : Int} (returned : waitPidOrSignal answer = .ok exitCode) :
    answer = .failed eintr ∧ exitCode = -eintr ∨
      ∃ ending, answer = .ended ending ∧ exitCode = ending.exitCode := by
  cases answer with
  | failed errno =>
    simp only [waitPidOrSignal] at returned
    split at returned
    next caught =>
      injection returned with code
      exact .inl ⟨by rw [caught], code.symm⟩
    next => contradiction
  | ended ending =>
    injection returned with code
    exact .inr ⟨ending, rfl, code.symm⟩
  | unexpected status => contradiction

theorem waitPid_cases {answer : Waited} {exitCode : Option Int} (returned : waitPid answer = .ok exitCode) :
    answer = .failed eintr ∧ exitCode = none ∨
      ∃ ending, answer = .ended ending ∧ exitCode = some ending.exitCode := by
  simp only [waitPid, bind, Except.bind] at returned
  split at returned
  next => contradiction
  next code waited =>
    obtain ⟨caught, rfl⟩ | ⟨ending, ended, rfl⟩ := waitPidOrSignal_cases waited
    next =>
      rw [if_pos rfl] at returned
      injection returned with same
      exact .inl ⟨caught, same.symm⟩
    next =>
      have positive := ending.exitCode_nonneg
      rw [if_neg (by simp only [eintr]; omega)] at returned
      injection returned with same
      exact .inr ⟨ending, ended, same.symm⟩

end BuildboxCommon.SystemUtils
