namespace BarReplay.Decimal

-- The decimal digits of a whole number, most significant first; `0` has one digit.
def digits (n : Nat) : List Char :=
  Nat.toDigits 10 n

def text (n : Nat) : String :=
  String.ofList (digits n)

def textInt : Int → String
  | .ofNat n => text n
  | .negSucc n => "-" ++ text (n + 1)

-- The value of digits, most significant first.
def value (ds : List Nat) : Nat :=
  ds.foldl (fun n d => n * 10 + d) 0

-- Whole numbers with more digits than this are not read.
def digitLimit : Nat := 4300

-- At least `width` digits, with zeros in front.
def padded (width n : Nat) : String :=
  let ds := digits n
  String.ofList (List.replicate (width - ds.length) '0' ++ ds)

-- Digits in groups of three from the right, with a comma between groups.
-- `ds` is given least significant first.
def groupedReverse : List Char → List Char
  | a :: b :: c :: d :: rest => a :: b :: c :: ',' :: groupedReverse (d :: rest)
  | ds => ds

def grouped (n : Nat) : String :=
  String.ofList (groupedReverse (digits n).reverse).reverse

end BarReplay.Decimal
