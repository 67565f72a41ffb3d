import ProxpulseJudge.GeoOpen
import Mathlib.Data.List.Destutter
import Mathlib.Data.List.ReduceOption

/-! The notices owed for the loaded databases, and the check of all of them that is made
before they are used. -/
namespace ProxpulseJudge.Geo
open Textual (Text toAsciiLowercase)
open Utf8 (encode)

def maxmindNotice : Text :=
  "This product includes GeoLite2 Data created by MaxMind, available from https://www.maxmind.com".toList

def dbipNotice : Text := "IP Geolocation by DB-IP (https://db-ip.com)".toList

def noticeOf (name : Text) : Option Text :=
  if contains name "maxmind".toList || contains name "geolite".toList || contains name "geoip".toList then
    some maxmindNotice
  else if contains name "dbip".toList || contains name "db-ip".toList then some dbipNotice
  else none

section Code
variable {F : Type}

def GeoPool.labels (pool : GeoPool F) : List Text :=
  pool.sources.entries.map (fun e => toAsciiLowercase e.2) ++
    [pool.city,pool.country,pool.asn].reduceOption.map (fun reader => toAsciiLowercase reader.databaseType)

def GeoPool.attributions (pool : GeoPool F) : List Text :=
  ((pool.labels.filterMap noticeOf).insertionSort (fun a b => encode a ≤ encode b)).destutter (· ≠ ·)

def verifyFrom (check : Reader F → Except Text Unit) (any : Bool) : List (Slot × Option (Reader F)) → Except Text Unit
  | [] => if any then .ok () else .error "no geo databases loaded".toList
  | (_,none) :: rest => verifyFrom check any rest
  | (kind,some reader) :: rest =>
    match check reader with
    | .ok _ => verifyFrom check true rest
    | .error e => .error (kind.key ++ ": ".toList ++ shortErr e)

def verify (check : Reader F → Except Text Unit) (pool : Readers F) : Except Text Unit :=
  verifyFrom check false [(.city,pool.city),(.country,pool.country),(.asn,pool.asn)]

end Code

section Notices
variable {F : Type} {pool : GeoPool F} {notice : Text}

theorem noticeCases {name : Text} (owed : noticeOf name = some notice) : notice = dbipNotice ∨ notice = maxmindNotice := by
  unfold noticeOf at owed
  split at owed
  · exact .inr (Option.some.inj owed).symm
  · split at owed
    · exact .inl (Option.some.inj owed).symm
    · contradiction

theorem labelSlot {label : Text} : label ∈ pool.labels ↔ ∃ slot : Slot,
    (∃ name, pool.sources.get slot.key = some name ∧ label = toAsciiLowercase name) ∨
    ∃ reader, pool.get slot = some reader ∧ label = toAsciiLowercase reader.databaseType := by
  simp only [GeoPool.labels,List.mem_append,List.mem_map]
  constructor
  · rintro (⟨⟨key,name⟩,mem,rfl⟩ | ⟨reader,mem,rfl⟩)
    · have found := pool.sources.getMem.mpr mem
      obtain ⟨slot,rfl,-⟩ := (pool.listed key).mp (by rw [found]; rfl)
      exact ⟨slot,.inl ⟨name,found,rfl⟩⟩
    · rw [List.reduceOption_mem_iff] at mem
      simp only [List.mem_cons,List.not_mem_nil,or_false] at mem
      rcases mem with city | country | asn
      · exact ⟨.city,.inr ⟨reader,city.symm,rfl⟩⟩
      · exact ⟨.country,.inr ⟨reader,country.symm,rfl⟩⟩
      · exact ⟨.asn,.inr ⟨reader,asn.symm,rfl⟩⟩
  · rintro ⟨slot,⟨name,found,rfl⟩ | ⟨reader,loaded,rfl⟩⟩
    · exact .inl ⟨_,pool.sources.getMem.mp found,rfl⟩
    · refine .inr ⟨reader,List.reduceOption_mem_iff.mpr ?_,rfl⟩
      cases slot <;> simp [← loaded,Readers.get]

def Owed (pool : GeoPool F) (notice : Text) : Prop := ∃ slot : Slot,
  (∃ name, pool.sources.get slot.key = some name ∧ noticeOf (toAsciiLowercase name) = some notice) ∨
  ∃ reader, pool.get slot = some reader ∧ noticeOf (toAsciiLowercase reader.databaseType) = some notice

theorem noticeAntisymm (a b : Text) (le : encode a ≤ encode b) (ge : encode b ≤ encode a) : a = b :=
  Utf8.encodeInjective (List.le_antisymm le ge)

/- In an ordered list equal elements stand in a row. -/
theorem attributionsDedup (pool : GeoPool F) :
    pool.attributions = ((pool.labels.filterMap noticeOf).insertionSort (fun a b => encode a ≤ encode b)).dedup :=
  have : Std.Antisymm fun a b : Text => encode a ≤ encode b := ⟨noticeAntisymm⟩
  (List.pairwise_insertionSort _ _).destutter_eq_dedup

theorem memAttributions : notice ∈ pool.attributions ↔ Owed pool notice := by
  rw [attributionsDedup,List.mem_dedup,(List.perm_insertionSort _ _).mem_iff,List.mem_filterMap]
  constructor
  · rintro ⟨label,mem,owed⟩
    obtain ⟨slot,⟨name,found,rfl⟩ | ⟨reader,loaded,rfl⟩⟩ := labelSlot.mp mem
    · exact ⟨slot,.inl ⟨name,found,owed⟩⟩
    · exact ⟨slot,.inr ⟨reader,loaded,owed⟩⟩
  · rintro ⟨slot,⟨name,found,owed⟩ | ⟨reader,loaded,owed⟩⟩
    · exact ⟨_,labelSlot.mpr ⟨slot,.inl ⟨name,found,rfl⟩⟩,owed⟩
    · exact ⟨_,labelSlot.mpr ⟨slot,.inr ⟨reader,loaded,rfl⟩⟩,owed⟩

theorem attributionsStrict (pool : GeoPool F) :
    pool.attributions.Pairwise (fun a b => encode a ≤ encode b ∧ a ≠ b) := by
  rw [attributionsDedup]
  exact ((List.pairwise_insertionSort _ _).sublist (List.dedup_sublist _)).and (List.nodup_dedup _)

theorem attributionsSame {other : GeoPool F} (same : ∀ notice, Owed pool notice ↔ Owed other notice) :
    pool.attributions = other.attributions :=
  Seq.strictUnique noticeAntisymm (attributionsStrict pool) (attributionsStrict other) fun notice => by
    rw [memAttributions,memAttributions,same]

theorem attributionsSublist (pool : GeoPool F) : pool.attributions.Sublist [dbipNotice,maxmindNotice] := by
  have listed : [dbipNotice,maxmindNotice].Pairwise (fun a b => encode a ≤ encode b ∧ a ≠ b) := by decide +kernel
  have same : pool.attributions = [dbipNotice,maxmindNotice].filter (fun n => decide (n ∈ pool.attributions)) := by
    refine Seq.strictUnique noticeAntisymm (attributionsStrict pool) (listed.sublist List.filter_sublist) fun notice => ?_
    rw [List.mem_filter,decide_eq_true_eq]
    refine ⟨fun mem => ⟨?_,mem⟩,And.right⟩
    obtain ⟨slot,⟨name,-,owed⟩ | ⟨reader,-,owed⟩⟩ := memAttributions.mp mem
    · simpa using noticeCases owed
    · simpa using noticeCases owed
  rw [same]
  exact List.filter_sublist

theorem owedOpen {dir : Directory F} : Owed (GeoPool.open dir) notice ↔ ∃ (slot : Slot) (reader : Reader F) (name : Text),
    dir.openFirst slot.names = (some reader,some name) ∧ (noticeOf (toAsciiLowercase name) = some notice ∨
      noticeOf (toAsciiLowercase reader.databaseType) = some notice) := by
  simp only [Owed,openSource,openGet]
  constructor
  · rintro ⟨slot,⟨name,found,owed⟩ | ⟨reader,loaded,owed⟩⟩
    · have agrees : (dir.openFirst slot.names).2.isSome = (dir.openFirst slot.names).1.isSome := chooseAgrees _ _ _
      obtain ⟨reader,loaded⟩ := Option.isSome_iff_exists.mp (agrees.symm.trans (by rw [found]; rfl))
      exact ⟨slot,reader,name,Prod.ext loaded found,.inl owed⟩
    · have agrees : (dir.openFirst slot.names).2.isSome = (dir.openFirst slot.names).1.isSome := chooseAgrees _ _ _
      obtain ⟨name,found⟩ := Option.isSome_iff_exists.mp (agrees.trans (by rw [loaded]; rfl))
      exact ⟨slot,reader,name,Prod.ext loaded found,.inr owed⟩
  · rintro ⟨slot,reader,name,selected,owed | owed⟩
    · exact ⟨slot,.inl ⟨name,by rw [selected],owed⟩⟩
    · exact ⟨slot,.inr ⟨reader,by rw [selected],owed⟩⟩

theorem openCredits (dir : Directory F) :
    let credits := (GeoPool.open dir).attributions
    (∀ notice, notice ∈ credits ↔ ∃ (slot : Slot) (reader : Reader F) (name : Text),
      dir.openFirst slot.names = (some reader,some name) ∧ (noticeOf (toAsciiLowercase name) = some notice ∨
        noticeOf (toAsciiLowercase reader.databaseType) = some notice)) ∧
    credits.Sublist [dbipNotice,maxmindNotice] ∧
    ∀ pool : GeoPool F, (∀ slot : Slot, pool.get slot = (dir.openFirst slot.names).1 ∧
      pool.sources.get slot.key = (dir.openFirst slot.names).2) → pool.attributions = credits := by
  refine ⟨fun notice => by rw [memAttributions,owedOpen],attributionsSublist _,fun pool same => ?_⟩
  refine attributionsSame fun notice => ?_
  simp only [Owed,openSource,openGet,same]

end Notices

section Verification
variable {F : Type} {check : Reader F → Except Text Unit} {pool : Readers F}

theorem verifyFromOk (any : Bool) (slots : List (Slot × Option (Reader F))) :
    verifyFrom check any slots = .ok () ↔ (any = true ∨ ∃ entry ∈ slots, entry.2.isSome = true) ∧
      ∀ entry ∈ slots, ∀ reader ∈ entry.2, ∃ u, check reader = .ok u := by
  induction slots generalizing any with
  | nil => cases any <;> simp [verifyFrom]
  | cons entry rest ih =>
    obtain ⟨kind,slot⟩ := entry
    cases slot with
    | none => simp [verifyFrom,ih]
    | some reader =>
      cases outcome : check reader with
      | error e => simp [verifyFrom,outcome]
      | ok u => simp [verifyFrom,outcome,ih]

theorem verifyFromError {any : Bool} {slots : List (Slot × Option (Reader F))} {e : Text}
    (failed : verifyFrom check any slots = .error e) :
    (any = false ∧ (∀ entry ∈ slots, entry.2 = none) ∧ e = "no geo databases loaded".toList) ∨
    ∃ before kind reader reason after, slots = before ++ (kind,some reader) :: after ∧
      (∀ entry ∈ before, ∀ r ∈ entry.2, ∃ u, check r = .ok u) ∧ check reader = .error reason ∧
      e = kind.key ++ ": ".toList ++ shortErr reason := by
  induction slots generalizing any with
  | nil =>
    cases any with
    | true => contradiction
    | false => exact .inl ⟨rfl,by simp,(Except.error.inj failed).symm⟩
  | cons entry rest ih =>
    obtain ⟨kind,slot⟩ := entry
    cases slot with
    | none =>
      rcases ih failed with ⟨quiet,empty,text⟩ | ⟨before,other,reader,reason,after,rfl,fine,bad,text⟩
      · exact .inl ⟨quiet,by simpa using empty,text⟩
      · exact .inr ⟨(kind,none) :: before,other,reader,reason,after,rfl,by simpa using fine,bad,text⟩
    | some reader =>
      rw [verifyFrom] at failed
      cases outcome : check reader with
      | error reason =>
        rw [outcome] at failed
        exact .inr ⟨[],kind,reader,reason,rest,rfl,by simp,outcome,(Except.error.inj failed).symm⟩
      | ok u =>
        rw [outcome] at failed
        rcases ih failed with ⟨quiet,-,-⟩ | ⟨before,other,second,reason,after,rfl,fine,bad,text⟩
        · contradiction
        · refine .inr ⟨(kind,some reader) :: before,other,second,reason,after,rfl,?_,bad,text⟩
          simpa [outcome] using fine

theorem verifyOk : verify check pool = .ok () ↔ (∃ slot : Slot, (pool.get slot).isSome = true) ∧
    ∀ (slot : Slot) (reader : Reader F), pool.get slot = some reader → ∃ u, check reader = .ok u := by
  rw [verify,verifyFromOk]
  constructor
  · rintro ⟨loaded,sound⟩
    refine ⟨?_,fun slot reader here => ?_⟩
    · simp only [List.mem_cons,List.not_mem_nil,or_false,exists_eq_or_imp,exists_eq_left,Bool.false_eq_true,
        false_or] at loaded
      rcases loaded with city | country | asn
      · exact ⟨.city,city⟩
      · exact ⟨.country,country⟩
      · exact ⟨.asn,asn⟩
    · cases slot with
      | city => exact sound (.city,pool.city) (by simp) reader here
      | country => exact sound (.country,pool.country) (by simp) reader here
      | asn => exact sound (.asn,pool.asn) (by simp) reader here
  · rintro ⟨⟨slot,loaded⟩,sound⟩
    refine ⟨.inr ?_,?_⟩
    · cases slot with
      | city => exact ⟨(.city,pool.city),by simp,loaded⟩
      | country => exact ⟨(.country,pool.country),by simp,loaded⟩
      | asn => exact ⟨(.asn,pool.asn),by simp,loaded⟩
    · simp only [List.forall_mem_cons,List.not_mem_nil,false_implies,implies_true,and_true]
      exact ⟨fun reader => sound .city reader,fun reader => sound .country reader,fun reader => sound .asn reader⟩

def slots : List Slot := [.city,.country,.asn]

theorem slotsAll (slot : Slot) : slot ∈ slots := by cases slot <;> decide

def Fails (check : Reader F → Except Text Unit) (pool : Readers F) (slot : Slot) (reason : Text) : Prop :=
  ∃ before after, slots = before ++ slot :: after ∧
    (∀ earlier ∈ before, ∀ reader, pool.get earlier = some reader → ∃ u, check reader = .ok u) ∧
    ∃ reader, pool.get slot = some reader ∧ check reader = .error reason

theorem verifyError {e : Text} (failed : verify check pool = .error e) :
    (∀ slot : Slot, pool.get slot = none) ∧ e = "no geo databases loaded".toList ∨
    ∃ slot reason, Fails check pool slot reason ∧ e = slot.key ++ ": ".toList ++ shortErr reason := by
  have listed : verifyFrom check false (slots.map fun slot => (slot,pool.get slot)) = .error e := failed
  rcases verifyFromError listed with ⟨-,empty,text⟩ | ⟨before,slot,reader,reason,after,cut,fine,bad,text⟩
  · exact .inl ⟨fun slot => empty _ (List.mem_map_of_mem (slotsAll slot)),text⟩
  · obtain ⟨front,rest,split,rfl,tail⟩ := List.map_eq_append_iff.mp cut
    obtain ⟨_,back,rfl,here,rfl⟩ := List.map_eq_cons_iff.mp tail
    obtain ⟨rfl,loaded⟩ := Prod.mk.inj here
    refine .inr ⟨_,reason,⟨front,back,split,fun earlier mem r found => ?_,reader,loaded,bad⟩,text⟩
    exact fine _ (List.mem_map_of_mem mem) r found

end Verification
end ProxpulseJudge.Geo
