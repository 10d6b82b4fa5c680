import LibIS.Buffering
import Mathlib.Data.Nat.Digits.Lemmas

set_option autoImplicit false

/-! # Host names (`intercomm.cpp`, `SocketInterComm::listen` and `parseHost`)

An acceptor publishes its host name and its port as one string, and a connector takes the string
apart. A name without a colon and a port that is an `int` are read back (`parseHost_listen`). -/

open ByteCodec

namespace LibIS

/-- What `SocketInterComm::connect` may throw. -/
inductive ConnectFault where
  | fault (e : Fault)
  | invalidArgument
  | outOfRange
deriving DecidableEq

/-- The text of a string. -/
def StdString.text (s : StdString) : String :=
  String.ofList (s.bytes.map (fun b => Char.ofNat b.toNat))

/-! ## Numbers -/

def digitByte (d : ℕ) : UInt8 :=
  UInt8.ofNat (48 + d)

/-- `std::to_string` of a number that is not negative. -/
def toDecimal (n : ℕ) : Bytes :=
  if n = 0 then [48] else (Nat.digits 10 n).reverse.map digitByte

def isSpace (b : UInt8) : Bool :=
  b = 32 || (9 ≤ b && b ≤ 13)

def isDigit (b : UInt8) : Bool :=
  48 ≤ b && b ≤ 57

def decimalValue (digits : Bytes) : ℕ :=
  digits.foldl (fun n b => 10 * n + (b.toNat - 48)) 0

/-- The sign of a number, and what follows it. -/
def splitSign : Bytes → Bool × Bytes
  | [] => (false, [])
  | b :: bs => if b = 45 then (true, bs) else if b = 43 then (false, bs) else (false, b :: bs)

/-- `std::stoi`. -/
def stoi (s : Bytes) : Except ConnectFault ℤ :=
  let (negative, s) := splitSign (s.dropWhile isSpace)
  let digits := s.takeWhile isDigit
  let n : ℤ := if negative then -decimalValue digits else decimalValue digits
  if digits = [] then
    .error .invalidArgument
  else if n < -2 ^ 31 ∨ 2 ^ 31 ≤ n then
    .error .outOfRange
  else
    .ok n

theorem digitByte_toNat {d : ℕ} (hd : d < 10) : (digitByte d).toNat = 48 + d := by
  have hlt : 48 + d < UInt8.size := by
    show 48 + d < 256
    omega
  rw [digitByte, UInt8.toNat_ofNat_of_lt' hlt]

theorem isDigit_digitByte {d : ℕ} (hd : d < 10) : isDigit (digitByte d) = true := by
  have hvalue := digitByte_toNat hd
  simp only [isDigit, UInt8.le_iff_toNat_le, hvalue, Bool.and_eq_true, decide_eq_true_eq]
  constructor
  · show 48 ≤ 48 + d
    omega
  · show 48 + d ≤ 57
    omega

theorem digit_lt {n d : ℕ} (hd : d ∈ Nat.digits 10 n) : d < 10 :=
  Nat.digits_lt_base (by norm_num) hd

theorem isDigit_of_mem_toDecimal {n : ℕ} {b : UInt8} (hb : b ∈ toDecimal n) : isDigit b = true := by
  unfold toDecimal at hb
  split at hb
  · rw [List.mem_singleton.1 hb]
    rfl
  · obtain ⟨d, hd, rfl⟩ := List.mem_map.1 hb
    exact isDigit_digitByte (digit_lt (List.mem_reverse.1 hd))

theorem toDecimal_ne_nil (n : ℕ) : toDecimal n ≠ [] := by
  unfold toDecimal
  split
  · simp
  · next hn =>
      rw [Ne, List.map_eq_nil_iff, List.reverse_eq_nil_iff, Nat.digits_eq_nil_iff_eq_zero]
      exact hn

theorem toDecimal_length {n k : ℕ} (hk : 0 < k) (hn : n < 10 ^ k) : (toDecimal n).length ≤ k := by
  unfold toDecimal
  split
  · exact hk
  · rw [List.length_map, List.length_reverse, Nat.digits_length_le_iff (by norm_num)]
    exact hn

theorem decimalValue_toDecimal (n : ℕ) : decimalValue (toDecimal n) = n := by
  have hdigits : ∀ ds : List ℕ, (∀ d ∈ ds, d < 10) →
      decimalValue (ds.reverse.map digitByte) = Nat.ofDigits 10 ds := by
    intro ds hds
    rw [decimalValue, List.foldl_map, List.foldl_reverse, Nat.ofDigits_eq_foldr]
    induction ds with
    | nil => rfl
    | cons d ds ih =>
        rw [List.foldr_cons, List.foldr_cons, ih (fun d' hd' => hds d' (.tail _ hd')),
          digitByte_toNat (hds d (.head _)), Nat.add_sub_cancel_left, Nat.add_comm]
        rfl
  unfold toDecimal
  split
  · next hn =>
      rw [hn]
      rfl
  · rw [hdigits _ (fun d hd => digit_lt hd), Nat.ofDigits_digits]

theorem stoi_toDecimal {n : ℕ} (hn : n < 2 ^ 31) : stoi (toDecimal n) = .ok (n : ℤ) := by
  have hall : ∀ b ∈ toDecimal n, isDigit b = true := fun b hb => isDigit_of_mem_toDecimal hb
  have hsign : splitSign ((toDecimal n).dropWhile isSpace) = (false, toDecimal n) := by
    cases hds : toDecimal n with
    | nil => exact absurd hds (toDecimal_ne_nil n)
    | cons b bs =>
        have hb : isDigit b = true := hall b (by rw [hds]; exact .head _)
        have hspace : ¬ isSpace b = true := by
          intro hs
          simp only [isDigit, isSpace, UInt8.le_iff_toNat_le, Bool.and_eq_true, Bool.or_eq_true,
            decide_eq_true_eq, UInt8.ext_iff] at hb hs
          simp at hb hs
          omega
        have hminus : b ≠ 45 := by
          rintro rfl
          exact absurd hb (by decide)
        have hplus : b ≠ 43 := by
          rintro rfl
          exact absurd hb (by decide)
        rw [List.dropWhile_cons_of_neg hspace, splitSign, if_neg hminus, if_neg hplus]
  have hdigits : (toDecimal n).takeWhile isDigit = toDecimal n := by
    rw [← List.append_nil (toDecimal n), List.takeWhile_append_of_pos (by simpa using hall),
      List.takeWhile_nil]
  simp only [stoi, hsign, hdigits, decimalValue_toDecimal, Bool.false_eq_true, if_false]
  rw [if_neg (toDecimal_ne_nil n), if_neg (by omega)]

/-! ## Names -/

/-- The end of `SocketInterComm::listen`: the name that is published. -/
def listenName (hostname : Bytes) (listenPort : ℕ) : Except Fault StdString :=
  StdString.ofBytes (hostname ++ 58 :: toDecimal listenPort)

/-- `parseHost`: what stands before the first colon, and the number behind it. -/
def parseHost (hostport : StdString) : Except ConnectFault (Bytes × ℤ) :=
  if 58 ∈ hostport.bytes then do
    let port ← stoi (hostport.bytes.dropWhile (· ≠ 58)).tail
    return (hostport.bytes.takeWhile (· ≠ 58), port)
  else
    .error (.fault (.runtimeError ("failed to parse host: " ++ hostport.text)))

theorem listenName_bytes {hostname : Bytes} {listenPort : ℕ} {name : StdString}
    (h : listenName hostname listenPort = .ok name) :
    name.bytes = hostname ++ 58 :: toDecimal listenPort := by
  unfold listenName StdString.ofBytes at h
  split at h
  · rw [← Except.ok.inj h]
  · exact absurd h (by simp)

theorem parseHost_listen {hostname : Bytes} {listenPort : ℕ} {name : StdString}
    (h : listenName hostname listenPort = .ok name) (hcolon : 58 ∉ hostname)
    (hport : listenPort < 2 ^ 31) : parseHost name = .ok (hostname, (listenPort : ℤ)) := by
  have hbytes := listenName_bytes h
  have hbefore : ∀ b ∈ hostname, decide (b ≠ 58) = true := by
    intro b hb
    have hne : b ≠ 58 := fun hb' => hcolon (hb' ▸ hb)
    simpa using hne
  have htake : name.bytes.takeWhile (· ≠ 58) = hostname := by
    rw [hbytes, List.takeWhile_append_of_pos hbefore, List.takeWhile_cons_of_neg (by simp),
      List.append_nil]
  have hdrop : name.bytes.dropWhile (· ≠ 58) = 58 :: toDecimal listenPort := by
    rw [hbytes, List.dropWhile_append_of_pos hbefore, List.dropWhile_cons_of_neg (by simp)]
  unfold parseHost
  rw [if_pos (by rw [hbytes]; simp), htake, hdrop, List.tail_cons, stoi_toDecimal hport]
  rfl

theorem zero_notMem_listenName {hostname : Bytes} {listenPort : ℕ} {name : StdString}
    (h : listenName hostname listenPort = .ok name) (hzero : 0 ∉ hostname) : 0 ∉ name.bytes := by
  rw [listenName_bytes h, List.mem_append, List.mem_cons]
  rintro (hmem | hcolon | hdigit)
  · exact hzero hmem
  · exact absurd hcolon (by decide)
  · exact absurd (isDigit_of_mem_toDecimal hdigit) (by decide)

end LibIS
