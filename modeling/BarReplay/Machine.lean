import BarReplay.Metrics.Performance
import BarReplay.Yahoo.Client

namespace BarReplay.Machine

open Amount

-- How the machine reads answers. A page is refused for the statuses of errors, with whose fault it
-- is.
def reader : Yahoo.Reader where
  check url r :=
    let refused (side : String) : Yahoo.Refusal :=
      .expected (Decimal.textInt r.status ++ " " ++ side ++ " Error: " ++ r.reason ++
        " for url: " ++ url)
    if 400 ≤ r.status ∧ r.status < 500 then .error (refused "Client")
    else if 500 ≤ r.status ∧ r.status < 600 then .error (refused "Server")
    else .ok ()
  json r := (Json.parse r.text).mapError fun e => .expected e.message

section Statistics

variable {α : Type} [Amount α]

-- Eight running sums over blocks of eight; what is left over comes back.
def lanes (r0 r1 r2 r3 r4 r5 r6 r7 : α) : List α → α × List α
  | a0 :: a1 :: a2 :: a3 :: a4 :: a5 :: a6 :: a7 :: rest =>
    lanes (r0 + a0) (r1 + a1) (r2 + a2) (r3 + a3) (r4 + a4) (r5 + a5) (r6 + a6) (r7 + a7) rest
  | rest => (((r0 + r1) + (r2 + r3)) + ((r4 + r5) + (r6 + r7)), rest)

-- The sum of up to 128 amounts.
def blockSum : List α → α
  | a0 :: a1 :: a2 :: a3 :: a4 :: a5 :: a6 :: a7 :: rest =>
    let (total, left) := lanes a0 a1 a2 a3 a4 a5 a6 a7 rest
    left.foldl (· + ·) total
  | [] => 0
  | x :: rest => rest.foldl (· + ·) x

-- The sum of a list by halves: longer lists are cut at a multiple of eight near the middle,
-- which keeps the rounding error small.
def pairwiseSum (xs : List α) : α :=
  if xs.length ≤ 128 then
    blockSum xs
  else
    let half := xs.length / 2 / 8 * 8
    pairwiseSum (xs.take half) + pairwiseSum (xs.drop half)
  termination_by xs.length
  decreasing_by
    · simp only [List.length_take]; omega
    · simp only [List.length_drop]; omega

def mean (xs : List α) : α :=
  pairwiseSum xs / whole xs.length

def deviation (xs : List α) : α :=
  let m := mean xs
  sqrt (pairwiseSum (xs.map fun x => (x - m) * (x - m)) / whole xs.length)

-- How the machine calculates statistics.
def statistics : Metrics.Statistics α := ⟨pairwiseSum, mean, deviation⟩

end Statistics

end BarReplay.Machine
