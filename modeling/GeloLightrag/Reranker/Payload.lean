import GeloLightrag.Reranker.Open
import Mathlib.Tactic.IntervalCases

namespace Reranker
open Foundation

-- A reader that takes what is written, for use where no other is at hand.
def expect (text input : Bytes) : Option Bytes := if input.take text.length = text then some (input.drop text.length) else none

theorem expect_append (text rest : Bytes) : expect text (text ++ rest) = some rest := by
  unfold expect
  rw [List.take_left,List.drop_left,if_pos rfl]

def hexValue (d : UInt8) : UInt8 := if d < 58 then d - 48 else d - 87

def unescape (c : UInt8) : Option UInt8 :=
  if c = 0x22 ∨ c = 0x5c then some c else if c = 0x62 then some 0x08 else if c = 0x74 then some 0x09
  else if c = 0x6e then some 0x0a else if c = 0x66 then some 0x0c else if c = 0x72 then some 0x0d else none

-- One byte of a string, and what follows it.
def readByte : Bytes → Option (UInt8 × Bytes)
  | 0x5c :: 0x75 :: _ :: _ :: high :: low :: rest => some (hexValue high * 16 + hexValue low,rest)
  | 0x5c :: c :: rest => (unescape c).map fun b => (b,rest)
  | b :: rest => if b = 0x22 then none else some (b,rest)
  | [] => none

theorem readByte_escapeByte (b : UInt8) (rest : Bytes) : readByte (escapeByte b ++ rest) = some (b,rest) := by
  by_cases quote : b = 0x22
  · subst quote
    rfl
  by_cases slash : b = 0x5c
  · subst slash
    rfl
  by_cases printable : 0x20 ≤ b
  · have alone : escapeByte b = [b] := by simp [escapeByte,quote,slash,printable]
    rw [alone,List.singleton_append,readByte,if_neg quote]
    · exact fun _ _ _ _ _ is => absurd is slash
    · exact fun _ _ is => absurd is slash
  · have control : b.toNat < 32 := by simpa [UInt8.le_iff_toNat_le] using printable
    obtain ⟨n,small,rfl⟩ : ∃ n < 32, b = UInt8.ofNat n := ⟨b.toNat,control,UInt8.ofNat_toNat.symm⟩
    clear quote slash printable control
    interval_cases n <;> rfl

-- The fuel is the length of the input.
def readString : Nat → Bytes → Option (Bytes × Bytes)
  | 0,_ => none
  | _+1,[] => none
  | fuel+1,b :: rest =>
    if b = 0x22 then some ([],rest)
    else do
      let (first,rest) ← readByte (b :: rest)
      let (others,rest) ← readString fuel rest
      return (first :: others,rest)

theorem escapeByte_starts (b : UInt8) : ∃ c rest, escapeByte b = c :: rest ∧ c ≠ 0x22 := by
  unfold escapeByte
  split
  · exact ⟨_,_,rfl,by decide⟩
  · rename_i quote
    split
    · exact ⟨_,_,rfl,by decide⟩
    · split
      · exact ⟨b,[],rfl,quote⟩
      · repeat' split
        all_goals exact ⟨0x5c,_,rfl,by decide⟩

theorem readString_escaped (fuel : Nat) (text rest : Bytes) (enough : text.length < fuel) :
    readString fuel (text.flatMap escapeByte ++ 0x22 :: rest) = some (text,rest) := by
  induction text generalizing fuel with
  | nil =>
      obtain ⟨fuel,rfl⟩ := Nat.exists_eq_add_of_lt enough
      simp [readString]
  | cons b others ih =>
      obtain ⟨fuel,rfl⟩ : ∃ less, fuel = less + 1 := ⟨fuel - 1,by simp at enough; omega⟩
      obtain ⟨c,tail,starts,open_⟩ := escapeByte_starts b
      have first := readByte_escapeByte b (others.flatMap escapeByte ++ 0x22 :: rest)
      rw [List.flatMap_cons,List.append_assoc]
      rw [starts,List.cons_append] at first ⊢
      simp only [readString,if_neg open_,first,bind,Option.bind]
      rw [ih fuel (by simp at enough; omega)]
      rfl

theorem escape_length (text : Bytes) : text.length ≤ (text.flatMap escapeByte).length := by
  induction text with
  | nil => exact Nat.le_refl 0
  | cons b rest ih =>
      obtain ⟨c,tail,starts,_⟩ := escapeByte_starts b
      rw [List.flatMap_cons,List.length_append,starts,List.length_cons,List.length_cons]
      omega

def digit (b : UInt8) : Bool := decide (48 ≤ b ∧ b < 58)

-- The number in front.
def readNumber (input : Bytes) : Nat × Bytes :=
  (Nat.ofDigitChars 10 ((input.takeWhile digit).map fun b => Char.ofNat b.toNat) 0,input.dropWhile digit)

theorem readNumber_decimal (n : Nat) (other : digit c = false) (rest : Bytes) : readNumber (decimal n ++ c :: rest) = (n,c :: rest) := by
  have digits : ∀ b ∈ decimal n, digit b = true := by
    intro b member
    obtain ⟨d,listed,rfl⟩ := List.mem_map.mp member
    have isDigit := Nat.isDigit_of_mem_toDigits (by decide) (by decide) listed
    simp only [Char.isDigit,Bool.and_eq_true,decide_eq_true_eq,ge_iff_le,UInt32.le_iff_toNat_le] at isDigit
    have range : 48 ≤ d.toNat ∧ d.toNat ≤ 57 := isDigit
    have value : (byteOf d).toNat = d.toNat := by
      rw [byteOf,UInt8.toNat_ofNat']
      omega
    simp only [digit,decide_eq_true_eq,UInt8.le_iff_toNat_le,UInt8.lt_iff_toNat_lt,value,UInt8.reduceToNat]
    omega
  unfold readNumber
  rw [List.takeWhile_append_of_pos digits,List.dropWhile_append_of_pos digits]
  simp only [List.takeWhile_cons,List.dropWhile_cons,other,Bool.false_eq_true,if_false,List.append_nil,decimal_digits,Nat.ofDigitChars_ten_toDigits]

def RerankPayload.read (input : Bytes) : Option RerankPayload :=
  match expect RerankPayload.decoy.toJson input with
  | some rest => if rest.all (· == 0x20) then some .decoy else none
  | none => do
    let rest ← expect (ascii "\x7b\"kind\":\"real\",\"rank\":") input
    let (rank,rest) := readNumber rest
    let rest ← expect (ascii ",\"chunk_id\":\"") rest
    let (chunkId,rest) ← readString input.length rest
    let rest ← expect (ascii ",\"text\":\"") rest
    let (text,rest) ← readString input.length rest
    let rest ← expect (ascii "\x7d") rest
    if rank < 2 ^ 32 ∧ rest.all (· == 0x20) then some (.real rank chunkId text) else none

theorem spaces_all (n : Nat) : (List.replicate n (0x20 : UInt8)).all (· == 0x20) = true := by simp

theorem read_decoy (spaces : Nat) : RerankPayload.read (RerankPayload.decoy.toJson ++ List.replicate spaces 0x20) = some .decoy := by
  unfold RerankPayload.read
  rw [expect_append]
  simp only [spaces_all,if_true]

theorem read_real {rank : Nat} (small : rank < 2 ^ 32) (chunkId text : Bytes) (spaces : Nat) :
    RerankPayload.read ((RerankPayload.real rank chunkId text).toJson ++ List.replicate spaces 0x20) = some (.real rank chunkId text) := by
  have comma : ascii ",\"chunk_id\":\"" = ascii ",\"chunk_id\":" ++ [0x22] := by decide
  have comma' : ascii ",\"text\":\"" = ascii ",\"text\":" ++ [0x22] := by decide
  have quote : ascii "\"" = [0x22] := by decide
  have parts : (RerankPayload.real rank chunkId text).toJson ++ List.replicate spaces 0x20 = ascii "\x7b\"kind\":\"real\",\"rank\":" ++
      (decimal rank ++ (ascii ",\"chunk_id\":\"" ++ (chunkId.flatMap escapeByte ++ 0x22 :: (ascii ",\"text\":\"" ++
        (text.flatMap escapeByte ++ 0x22 :: (ascii "\x7d" ++ List.replicate spaces 0x20)))))) := by
    simp only [RerankPayload.toJson,jsonString,comma,comma',quote,List.append_assoc,List.cons_append,List.nil_append]
  have notDecoy : ∀ rest, expect RerankPayload.decoy.toJson (ascii "\x7b\"kind\":\"real\",\"rank\":" ++ rest) = none := by
    intro rest
    unfold expect
    rw [List.take_append_of_le_length (by decide),if_neg (by decide)]
  generalize (RerankPayload.real rank chunkId text).toJson ++ List.replicate spaces 0x20 = input at parts ⊢
  have enough : chunkId.length < input.length ∧ text.length < input.length := by
    have longer := escape_length chunkId
    have longer' := escape_length text
    rw [parts]
    simp only [List.length_append,List.length_cons]
    omega
  have opened := notDecoy (decimal rank ++ (ascii ",\"chunk_id\":\"" ++ (chunkId.flatMap escapeByte ++ 0x22 :: (ascii ",\"text\":\"" ++
    (text.flatMap escapeByte ++ 0x22 :: (ascii "\x7d" ++ List.replicate spaces 0x20))))))
  rw [←parts] at opened
  have number : ∀ rest, readNumber (decimal rank ++ (ascii ",\"chunk_id\":\"" ++ rest)) = (rank,ascii ",\"chunk_id\":\"" ++ rest) :=
    fun rest => readNumber_decimal (c:=0x2c) rank (by decide) _
  unfold RerankPayload.read
  rw [opened]
  simp only [parts]
  simp only [expect_append,number,bind,Option.bind]
  rw [←parts]
  simp only [readString_escaped _ _ _ enough.1,readString_escaped _ _ _ enough.2,expect_append,spaces_all,small,and_self,if_true]

@[reducible] def PayloadJson.exact : PayloadJson := ⟨RerankPayload.read⟩

theorem exact_faithful : @PayloadJson.Faithful .exact :=
  @PayloadJson.Faithful.mk .exact fun payload spaces typed => by
    cases payload with
    | real rank chunkId text => exact read_real typed.1 chunkId text spaces
    | decoy => exact read_decoy spaces

end Reranker
