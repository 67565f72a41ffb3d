import ProxpulseJudge.Lib.Scan
import ProxpulseJudge.Lib.Utf8
import Mathlib.Data.Nat.Find

/-! The health probe of `main.rs`: a read loop over a socket that cuts the reply into
pieces of its own choice, and the status word of the first line. -/
namespace ProxpulseJudge.HealthCheck
open Textual (Text splitOnce isWhitespace)
open Utf8 (Bytes lineFeed fromUtf8Lossy)
open Scan (tokens)

/- The other end: connecting and writing may fail, each read gives at most a buffer; an
empty read is the end of the reply or an error. -/
structure Socket where
  connects : Bool
  writes : Bool
  reads : Nat → Bytes
  buffer : ∀ i, (reads i).length ≤ 256

def hasCrlf : Bytes → Bool
  | a :: b :: rest => (a == 13 && b == lineFeed) || hasCrlf (b :: rest)
  | _ => false

def readLoop (reads : Nat → Bytes) (i : Nat) (resp : Bytes) : Bytes :=
  if resp.length < 1024 then
    if (reads i).isEmpty then resp
    else if hasCrlf (resp ++ reads i) then resp ++ reads i
    else readLoop reads (i+1) (resp ++ reads i)
  else resp
termination_by 1024-resp.length
decreasing_by
  rename_i room more _
  have grown : 0 < (reads i).length := List.length_pos_of_ne_nil (by simpa using more)
  simp only [List.length_append]
  omega

def stripSuffix (c : Char) (t : Text) : Text := if t.getLast? = some c then t.dropLast else t

def firstOfLines (t : Text) : Option Text :=
  if t.isEmpty then none
  else match splitOnce '\n' t with
    | some (line,_) => some (stripSuffix '\r' line)
    | none => some t

def splitWhitespace (t : Text) : List Text := tokens (fun c => !isWhitespace c) t

def statusOk (resp : Bytes) : Bool :=
  decide (((firstOfLines (fromUtf8Lossy resp)).bind (fun line => (splitWhitespace line)[1]?)) = some "200".toList)

def healthcheck (s : Socket) : Bool :=
  if !s.connects then false
  else if !s.writes then false
  else statusOk (readLoop s.reads 0 [])

section Loop
variable {reads : Nat → Bytes}

def delivered (reads : Nat → Bytes) (n : Nat) : Bytes := (List.range n).flatMap reads

theorem deliveredNext (n : Nat) : delivered reads (n+1) = delivered reads n ++ reads n := by
  simp [delivered,List.range_succ]

/- Where the loop stopped: after non-empty reads only, at the bound, at the end of the
reply, or behind the end of a line. -/
structure Stopped (reads : Nat → Bytes) (n : Nat) : Prop where
  nonempty : ∀ i < n, reads i ≠ []
  reason : 1024 ≤ (delivered reads n).length ∨ reads n = [] ∨ hasCrlf (delivered reads n) = true
  bound : (delivered reads n).length < 1280

theorem readLoopStops (buffer : ∀ i, (reads i).length ≤ 256) {i : Nat} {resp : Bytes} (here : resp = delivered reads i)
    (nonempty : ∀ j < i, reads j ≠ []) (short : resp.length < 1280) :
    ∃ n, readLoop reads i resp = delivered reads n ∧ Stopped reads n := by
  fun_induction readLoop reads i resp with
  | case1 i resp room empty =>
    subst here
    exact ⟨i,rfl,nonempty,.inr (.inl (by simpa using empty)),short⟩
  | case2 i resp room more found =>
    rw [here,← deliveredNext] at found ⊢
    have size := buffer i
    refine ⟨i+1,rfl,Nat.forall_lt_succ_right.mpr ⟨nonempty,by simpa using more⟩,.inr (.inr found),?_⟩
    rw [deliveredNext,List.length_append,← here]
    omega
  | case3 i resp room more missing ih =>
    have size := buffer i
    exact ih (by rw [here,deliveredNext]) (Nat.forall_lt_succ_right.mpr ⟨nonempty,by simpa using more⟩)
      (by rw [List.length_append]; omega)
  | case4 i resp full =>
    subst here
    exact ⟨i,rfl,nonempty,.inl (by omega),short⟩

theorem crlfLineFeed {resp : Bytes} (found : hasCrlf resp = true) : lineFeed ∈ resp := by
  fun_induction hasCrlf resp with
  | case1 a b rest ih =>
    rcases (Bool.or_eq_true _ _).mp found with here | later
    · have last := ((Bool.and_eq_true _ _).mp here).2
      simp [eq_of_beq last]
    · exact List.mem_cons_of_mem _ (ih later)
  | case2 => contradiction

end Loop

section Status

def secondWord (line : Bytes) : Option Text := (splitWhitespace (fromUtf8Lossy line))[1]?

theorem splitStripped (t : Text) : splitWhitespace (stripSuffix '\r' t) = splitWhitespace t := by
  unfold stripSuffix
  split
  · rename_i last
    have nonempty : t ≠ [] := fun empty => by simp [empty] at last
    have whole : t = t.dropLast ++ ['\r'] := by
      rw [List.getLast?_eq_some_getLast nonempty] at last
      rw [← Option.some.inj last,List.dropLast_append_getLast nonempty]
    have cut := @Scan.tokensCut (fun c => !isWhitespace c) '\r' (by decide) t.dropLast []
    have nothing : tokens (fun c => !isWhitespace c) [] = [] := rfl
    rw [← whole,nothing,List.append_nil] at cut
    exact cut.symm
  · rfl

theorem statusOfLine {line : Bytes} (plain : lineFeed ∉ line) :
    statusOk line = decide (secondWord line = some "200".toList) := by
  have single := Textual.splitOnceNone (Utf8.lossyNoLine plain)
  unfold statusOk firstOfLines secondWord
  split
  · rename_i empty
    rw [List.isEmpty_iff.mp empty]
    rfl
  · rw [single]
    rfl

theorem statusOfLines {line : Bytes} (plain : lineFeed ∉ line) (rest : Bytes) :
    statusOk (line ++ lineFeed :: rest) = decide (secondWord line = some "200".toList) := by
  have first := Textual.splitOnceFirst (Utf8.lossyNoLine plain) (fromUtf8Lossy rest)
  unfold statusOk firstOfLines secondWord
  rw [Utf8.lossyLines,if_neg (by simp),first]
  simp only [Option.bind_some,splitStripped]

end Status

section Stream

structure ByteStream where
  byte : Nat → Option UInt8
  ends : ∀ k, byte k = none → byte (k+1) = none

def ByteStream.ofList (bytes : Bytes) : ByteStream where
  byte k := bytes[k]?
  ends := by
    intro k done
    rw [List.getElem?_eq_none_iff] at done ⊢
    omega

structure Delivers (stream : ByteStream) (reads : Nat → Bytes) : Prop where
  content : ∀ n, (∀ i < n, reads i ≠ []) → ∀ k b, (delivered reads n)[k]? = some b → stream.byte k = some b
  ending : ∀ n, (∀ i < n, reads i ≠ []) → reads n = [] → stream.byte (delivered reads n).length = none

structure FirstLine (stream : ByteStream) (line : Bytes) : Prop where
  content : ∀ k b, (line : Bytes)[k]? = some b → stream.byte k = some b
  plain : lineFeed ∉ line
  stops : stream.byte line.length = some lineFeed ∨ stream.byte line.length = none

/- A line ending within the first 1024 bytes, or an end before them. -/
def Settles (stream : ByteStream) : Prop :=
  (∃ k, k+2 ≤ 1024 ∧ stream.byte k = some 13 ∧ stream.byte (k+1) = some lineFeed) ∨
    ∃ n < 1024, stream.byte n = none

variable {stream : ByteStream} {reads : Nat → Bytes} {line : Bytes}

theorem samePrefix {f : Nat → Option UInt8} {x y : Bytes} (left : ∀ k b, x[k]? = some b → f k = some b)
    (right : ∀ k b, y[k]? = some b → f k = some b) (le : x.length ≤ y.length) : x <+: y := by
  refine List.prefix_iff_getElem.mpr ⟨le,fun k bound => ?_⟩
  have fromX := left k x[k] (List.getElem?_eq_getElem bound)
  have fromY := right k y[k] (List.getElem?_eq_getElem (Nat.lt_of_lt_of_le bound le))
  exact Option.some.inj (fromX.symm.trans fromY)

theorem lineExists (settles : Settles stream) : ∃ line, FirstLine stream line := by
  have stop : ∃ k, stream.byte k = some lineFeed ∨ stream.byte k = none := by
    rcases settles with ⟨k,_,_,feed⟩ | ⟨n,_,done⟩
    · exact ⟨k+1,.inl feed⟩
    · exact ⟨n,.inr done⟩
  have known {j : Nat} (early : j < Nat.find stop) : ∃ b, stream.byte j = some b ∧ b ≠ lineFeed := by
    have before := Nat.find_min stop early
    cases here : stream.byte j with
    | none => simp [here] at before
    | some b => exact ⟨b,rfl,fun feed => before (.inl (by rw [here,feed]))⟩
  refine ⟨(List.range (Nat.find stop)).map (fun j => (stream.byte j).getD 0),?_,?_,?_⟩
  · intro k b here
    rw [List.getElem?_map] at here
    obtain ⟨j,mem,rfl⟩ := Option.map_eq_some_iff.mp here
    obtain ⟨bound,position⟩ := List.getElem?_eq_some_iff.mp mem
    rw [List.getElem_range] at position
    subst position
    obtain ⟨b,found,_⟩ := known (by simpa using bound)
    rw [found,Option.getD_some]
  · intro mem
    obtain ⟨j,inside,feed⟩ := List.mem_map.mp mem
    obtain ⟨b,here,other⟩ := known (List.mem_range.mp inside)
    rw [here] at feed
    exact other feed
  · rw [List.length_map,List.length_range]
    exact Nat.find_spec stop

theorem deliveredLine (settles : Settles stream) (delivers : Delivers stream reads) (first : FirstLine stream line)
    {n : Nat} (stopped : Stopped reads n) :
    delivered reads n = line ∨ ∃ rest, delivered reads n = line ++ lineFeed :: rest := by
  have content := delivers.content n stopped.nonempty
  rcases Nat.lt_or_ge (delivered reads n).length line.length with short | long
  · exfalso
    obtain ⟨rest,split⟩ := samePrefix content first.content (Nat.le_of_lt short)
    have inLine {k : Nat} (bound : k < line.length) : stream.byte k = some (line : Bytes)[k] :=
      first.content k _ (List.getElem?_eq_getElem bound)
    rcases stopped.reason with full | ended | found
    · rcases settles with ⟨k,fits,_,feed⟩ | ⟨k,fits,done⟩
      · rw [inLine (by omega)] at feed
        exact first.plain (Option.some.inj feed ▸ List.getElem_mem _)
      · rw [inLine (by omega)] at done
        contradiction
    · have done := delivers.ending n stopped.nonempty ended
      rw [inLine short] at done
      contradiction
    · exact first.plain (split ▸ List.mem_append_left rest (crlfLineFeed found))
  · obtain ⟨rest,split⟩ := samePrefix first.content content long
    cases rest with
    | nil => exact .inl (by rw [← split,List.append_nil])
    | cons b rest =>
      have here : stream.byte line.length = some b := content _ _ (by rw [← split]; simp)
      rcases first.stops with feed | done
      · rw [here] at feed
        exact .inr ⟨rest,by rw [← split,Option.some.inj feed]⟩
      · rw [here] at done
        contradiction

theorem lineUnique {other : Bytes} (first : FirstLine stream line) (second : FirstLine stream other) : other = line := by
  have notLonger {x y : Bytes} (left : FirstLine stream x) (right : FirstLine stream y) : x.length ≤ y.length := by
    by_contra longer
    have inside : y.length < x.length := by omega
    have here := left.content y.length _ (List.getElem?_eq_getElem inside)
    rcases right.stops with feed | done
    · rw [here] at feed
      exact left.plain (Option.some.inj feed ▸ List.getElem_mem _)
    · rw [here] at done
      contradiction
  exact (samePrefix second.content first.content (notLonger second first)).eq_of_length
    (Nat.le_antisymm (notLonger second first) (notLonger first second))

theorem statusDelivered (settles : Settles stream) (first : FirstLine stream line) {s : Socket}
    (connects : s.connects = true) (writes : s.writes = true) (delivers : Delivers stream s.reads) :
    healthcheck s = decide (secondWord line = some "200".toList) := by
  obtain ⟨n,read,stopped⟩ := @readLoopStops s.reads s.buffer 0 [] rfl (by simp) (by simp)
  rw [healthcheck,connects,writes,read]
  rcases deliveredLine settles delivers first stopped with whole | ⟨rest,cut⟩
  · rw [whole]
    exact statusOfLine first.plain
  · rw [cut]
    exact statusOfLines first.plain rest

theorem healthcheckChunking :
    (∀ stream, Settles stream → ∃ line, FirstLine stream line ∧ (∀ other, FirstLine stream other → other = line) ∧
      ∀ s : Socket, s.connects = true → s.writes = true → Delivers stream s.reads →
        (healthcheck s = true ↔ secondWord line = some "200".toList)) ∧
    ∀ s : Socket, ∃ n, readLoop s.reads 0 [] = delivered s.reads n ∧ (∀ i < n, s.reads i ≠ []) ∧
      (readLoop s.reads 0 []).length < 1280 := by
  constructor
  · intro stream settles
    obtain ⟨line,first⟩ := lineExists settles
    refine ⟨line,first,fun other second => lineUnique first second,?_⟩
    intro s connects writes delivers
    rw [statusDelivered settles first connects writes delivers,decide_eq_true_eq]
  · intro s
    obtain ⟨n,read,stopped⟩ := @readLoopStops s.reads s.buffer 0 [] rfl (by simp) (by simp)
    exact ⟨n,read,stopped.nonempty,read ▸ stopped.bound⟩

theorem ofListFront {front : Bytes} {k : Nat} {b : UInt8} (here : front[k]? = some b) (rest : Bytes) :
    (ByteStream.ofList (front ++ rest)).byte k = some b := by
  change (front ++ rest)[k]? = some b
  rw [List.getElem?_append_left (List.getElem?_eq_some_iff.mp here).1]
  exact here

theorem firstLineOfList (plain : lineFeed ∉ line) (rest : Bytes) :
    FirstLine (ByteStream.ofList (line ++ lineFeed :: rest)) line := by
  refine ⟨fun k b here => ofListFront here _,plain,.inl ?_⟩
  change (line ++ lineFeed :: rest)[line.length]? = some lineFeed
  simp

def chunked (chunks : List Bytes) (i : Nat) : Bytes := chunks.getD i []

theorem deliveredChunks {chunks : List Bytes} {n : Nat} (fits : n ≤ chunks.length) :
    delivered (chunked chunks) n = (chunks.take n).flatten := by
  induction n with
  | zero => rfl
  | succ n ih =>
    have here : chunked chunks n = chunks[n] := by simp [chunked,List.getD_eq_getElem?_getD,show n < chunks.length by omega]
    rw [deliveredNext,ih (by omega),here,← List.take_append_getElem (show n < chunks.length by omega),
      List.flatten_append]
    simp

theorem deliversChunks {chunks : List Bytes} (nonempty : ∀ c ∈ chunks, c ≠ []) :
    Delivers (ByteStream.ofList chunks.flatten) (chunked chunks) := by
  have fits {n : Nat} (full : ∀ i < n, chunked chunks i ≠ []) : n ≤ chunks.length := by
    by_contra longer
    exact full chunks.length (by omega) (by simp [chunked])
  constructor
  · intro n full k b here
    rw [deliveredChunks (fits full)] at here
    have whole : chunks.flatten = (chunks.take n).flatten ++ (chunks.drop n).flatten := by
      rw [← List.flatten_append,List.take_append_drop]
    rw [whole]
    exact ofListFront here _
  · intro n full done
    have all : chunks.length ≤ n := by
      by_contra more
      have inside : n < chunks.length := by omega
      refine nonempty chunks[n] (List.getElem_mem inside) ?_
      simpa [chunked,List.getD_eq_getElem?_getD,inside] using done
    rw [deliveredChunks (fits full),List.take_of_length_le all]
    exact List.getElem?_eq_none (le_refl _)

def sampleSocket : Socket where
  connects := true
  writes := true
  reads := chunked [Utf8.encode "HTTP/1.0 200 OK\r".toList,Utf8.encode "\nx: 404\r\n".toList]
  buffer := by
    intro i
    match i with
    | 0 => decide
    | 1 => decide
    | i+2 => simp [chunked]

theorem healthcheckChunkingSample : healthcheck sampleSocket = true := by
  let chunks := [Utf8.encode "HTTP/1.0 200 OK\r".toList,Utf8.encode "\nx: 404\r\n".toList]
  have settles : Settles (ByteStream.ofList chunks.flatten) := .inr ⟨30,by decide,by decide⟩
  have delivers : Delivers (ByteStream.ofList chunks.flatten) sampleSocket.reads := deliversChunks (by decide)
  have line : FirstLine (ByteStream.ofList chunks.flatten) (Utf8.encode "HTTP/1.0 200 OK\r".toList) :=
    firstLineOfList (by decide) (Utf8.encode "x: 404\r\n".toList)
  obtain ⟨known,_,unique,answers⟩ := healthcheckChunking.1 _ settles
  exact (answers sampleSocket rfl rfl delivers).mpr (unique _ line ▸ by decide +kernel)

end Stream
end ProxpulseJudge.HealthCheck
