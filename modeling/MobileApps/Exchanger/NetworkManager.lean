import MobileApps.Library.Runs
import MobileApps.Library.Unicode
import Mathlib.Data.List.Basic

/-! `NetworkManager.swift` with the screens that call it: callers of `convert` that wait for their
semaphore, and `ExchangeRatesUI` that loads until its completion is called. -/

namespace MobileApps.Exchanger

open Library.Unicode Library.Runs

abbrev Data := List UInt8

abbrev RateTable (D : Type) := List (Text × D)

structure Foundation (D : Type) where
  zero : D
  isURL : Text → Bool
  decodeConvertData : Data → Option D
  decodeRates : Data → Option (RateTable D)

def convertURL (from' to' amount : Text) : Text :=
  "https://api.apilayer.com/exchangerates_data/convert?to=".toList ++ to' ++ "&from=".toList
    ++ from' ++ "&amount=".toList ++ amount

def ratesURL (base : Text) : Text :=
  "https://api.apilayer.com/exchangerates_data/latest?symbols=&base=".toList ++ base

variable {D : Type} (F : Foundation D)

def JSONConvertParser (body : Data) : D := (F.decodeConvertData body).getD F.zero

def JSONRatesParser (body : Data) : RateTable D := (F.decodeRates body).getD []

inductive Caller
  | calling | waiting | resumed
  deriving DecidableEq

structure ConvertCall (D : Type) where
  url : Text
  result : D
  delivered : Bool := false
  semaphore : ℕ := 0
  signals : ℕ := 0
  caller : Caller := .calling

namespace ConvertCall

def wait (c : ConvertCall D) : Option (ConvertCall D) :=
  if c.caller = .calling then
    if 0 < c.semaphore then
      some { c with semaphore := c.semaphore - 1, caller := .resumed }
    else some { c with caller := .waiting }
  else none

def signal (c : ConvertCall D) : ConvertCall D :=
  if c.caller = .waiting then { c with signals := c.signals + 1, caller := .resumed }
  else { c with signals := c.signals + 1, semaphore := c.semaphore + 1 }

def deliver (c : ConvertCall D) (data : Option Data) : Option (ConvertCall D) :=
  if c.delivered then none
  else match data with
    -- the guard on the data returns before the signal
    | none => some { c with delivered := true }
    | some body => some { c with delivered := true, result := JSONConvertParser F body }.signal

end ConvertCall

structure RatesCall (D : Type) where
  url : Text
  delivered : Bool := false
  completions : List (RateTable D) := []

def RatesCall.deliver (c : RatesCall D) (data : Option Data) : Option (RatesCall D) :=
  if c.delivered then none
  else match data with
    | none => some { c with delivered := true }
    | some body => some { c with
        delivered := true
        completions := c.completions ++ [JSONRatesParser F body] }

structure Exchange (D : Type) where
  converts : List (ConvertCall D) := []
  rates : List (RatesCall D) := []
  loading : ℕ := 0
  arr : RateTable D := []

/-- `getRates` is a press of "Get rates!", with the currency chosen then. -/
inductive ExchangeEvent
  | convert (from' to' amount : Text)
  | wait (k : ℕ)
  | converted (k : ℕ) (data : Option Data)
  | getRates (base : Text)
  | gotRates (k : ℕ) (data : Option Data)
  deriving DecidableEq

namespace Exchange

def completed (s : Exchange D) : List (RateTable D) → Exchange D
  | [] => s
  | data :: _ => { s with loading := 0, arr := data }

def step (s : Exchange D) : ExchangeEvent → Option (Exchange D)
  | .convert from' to' amount =>
      -- `URL(string: url)!` traps on other strings
      if F.isURL (convertURL from' to' amount) then
        some { s with
          converts := s.converts ++ [{ url := convertURL from' to' amount, result := F.zero }] }
      else none
  | .wait k => s.converts[k]?.bind fun c => c.wait.map fun c' =>
      { s with converts := s.converts.set k c' }
  | .converted k data => s.converts[k]?.bind fun c => (c.deliver F data).map fun c' =>
      { s with converts := s.converts.set k c' }
  | .getRates base =>
      if F.isURL (ratesURL base) then
        some { s with
          loading := 1
          arr := []
          rates := s.rates ++ [{ url := ratesURL base }] }
      else none
  | .gotRates k data => s.rates[k]?.bind fun c => (c.deliver F data).map fun c' =>
      { s with rates := s.rates.set k c' }.completed (c'.completions.drop c.completions.length)

end Exchange

end MobileApps.Exchanger
