import Netspy.Framework.Json.Chars
import Netspy.Impl.CacheFiles

/-!
# What a load finds in an entry

An entry that is read back is the response that was written (`parse_text`). While no
store opens the `.part` file that another one has not renamed yet, an entry is what one
store wrote (`Inv`), and so a load returns nothing or a response that was stored
(`loads_given`). Two stores that overlap write into one file.
-/

namespace Netspy

namespace FullResponse

variable {lower : String → String} {isZero : String → Bool} {r : FullResponse}

theorem wf_toDict (h : r.Built lower isZero) : r.toDict.WF :=
  ⟨show ["url", "status_code", "headers", "cookies", "encoding", "elapsed", "history", "content_b64"].Nodup by decide,
    h.url, h.statusCode, h.headers, h.cookies.1, h.encoding, h.elapsed, h.history.1, trivial, trivial⟩

theorem fromDict_toDict (h : r.Built lower isZero) : fromDict lower isZero r.toDict = .ok r := by
  have hheaders : orElse isZero (.obj r.headers) (.obj []) = .obj r.headers := by
    cases r.headers with
    | nil => rfl
    | cons kv kvs => rfl
  have hlower : (r.headers.map fun kv => (lower kv.1, kv.2)) = r.headers := by
    conv_rhs => rw [← List.map_id r.headers]
    refine List.map_congr_left fun kv hkv => ?_
    rw [h.lowered kv hkv]
    rfl
  have hinit : init lower isZero r.url r.statusCode r.content (.obj r.headers) r.cookies r.encoding r.elapsed r.history
      = .ok r := by
    unfold init
    rw [hheaders]
    simp only [hlower, Json.dictOf_nodup h.headers.1, h.cookies.2, h.history.2]
  have hcontent : b64decode (.str (String.ofList (Base64.encode r.content))) = .ok r.content := by
    simp [b64decode]
  simp only [toDict, fromDict, item, List.lookup_cons, String.reduceBEq, Option.getD_some, bind, Except.bind,
    hcontent, hinit]

theorem orElse_orElse (v default : Json) : orElse isZero (orElse isZero v default) default = orElse isZero v default := by
  unfold orElse
  split
  · simp [*]
  · split <;> rfl

/-- The constructor leaves fields that are read back as they are. -/
theorem built_init {url statusCode headers cookies encoding elapsed history : Json} {content : List UInt8}
    (hlower : ∀ s, lower (lower s) = lower s) (hurl : url.WF) (hstatus : statusCode.WF) (hheaders : headers.WF)
    (hcookies : cookies.WF) (hencoding : encoding.WF) (helapsed : elapsed.WF) (hhistory : history.WF)
    (h : init lower isZero url statusCode content headers cookies encoding elapsed history = .ok r) :
    r.Built lower isZero := by
  have hor : ∀ v default : Json, v.WF → default.WF → (orElse isZero v default).WF := by
    intro v default hv hd
    unfold orElse
    split
    · exact hv
    · exact hd
  unfold init at h
  split at h
  · rename_i kvs hkvs
    cases h
    have hwf : Json.WF (.obj kvs) := hkvs ▸ hor headers (.obj []) hheaders ⟨List.nodup_nil, trivial⟩
    have hmem : ∀ kv ∈ Json.dictOf (kvs.map fun kv => (lower kv.1, kv.2)), ∃ kv' ∈ kvs, kv = (lower kv'.1, kv'.2) := by
      intro kv hkv
      obtain ⟨kv', hkv', he⟩ := List.mem_map.mp (Json.mem_dictOf hkv)
      exact ⟨kv', hkv', he.symm⟩
    refine ⟨hurl, hstatus, ⟨Json.nodup_dictOf _, Json.wfMembers_iff.mpr fun kv hkv => ?_⟩, fun kv hkv => ?_,
      ⟨hor _ _ hcookies ⟨List.nodup_nil, trivial⟩, orElse_orElse _ _⟩, hencoding, helapsed,
      ⟨hor _ _ hhistory trivial, orElse_orElse _ _⟩⟩
    · obtain ⟨kv', hkv', rfl⟩ := hmem kv hkv
      exact Json.wfMembers_iff.mp hwf.2 kv' hkv'
    · obtain ⟨kv', hkv', rfl⟩ := hmem kv hkv
      exact hlower kv'.1
  · cases h

end FullResponse

namespace CacheFiles

variable {lower : String → String} {isZero : String → Bool}

/-- An entry is read back as it was written. -/
theorem parse_text {r : FullResponse} (h : r.Built lower isZero) : parse lower isZero (text r) = some r := by
  have hlines : Lines.universalNewlines (Json.render r.toDict) = Json.render r.toDict := by
    refine Lines.universalNewlines_eq_self fun hr => ?_
    exact absurd (Json.mem_render r.toDict (FullResponse.wf_toDict h) hr).1 (by decide)
  have hloads := Json.loads_dumps (FullResponse.wf_toDict h)
  rw [Json.dumps] at hloads
  unfold parse text
  rw [Utf8.decode_encode]
  simp only [hlines, hloads, FullResponse.fromDict_toDict h, bind, Option.bind, Except.toOption]

variable {s t : CacheFiles lower isZero} {i j : Nat} {call : StoreCall lower isZero}

/-- The responses that stores have been given. -/
def given (s : CacheFiles lower isZero) : List FullResponse := s.stores.map (·.response.1)

theorem stores_setStage (st : StoreStage) (j : Nat) :
    (s.setStage i st).stores[j]? = if i = j then s.stores[j]?.map fun c => { c with stage := st } else s.stores[j]? := by
  simp only [setStage, List.getElem?_modify]
  split <;> simp

@[simp] theorem given_setStage (st : StoreStage) : (s.setStage i st).given = s.given := by
  apply List.ext_getElem?
  intro j
  simp only [given, List.getElem?_map, stores_setStage]
  split
  · rw [Option.map_map]
    rfl
  · rfl

theorem mem_given (h : s.stores[i]? = some call) : call.response.1 ∈ s.given :=
  List.mem_map_of_mem (List.mem_of_getElem? h)

end CacheFiles

/-- Between its opening of the `.part` file and the rename. -/
def StoreStage.Live : StoreStage → Prop
  | .ready | .ended => False
  | .writing _ _ | .closed => True

namespace CacheFiles

variable {lower : String → String} {isZero : String → Bool} {s t : CacheFiles lower isZero} {i j : Nat}
  {call : StoreCall lower isZero}

/-- No store opens the `.part` file that another one has yet to rename. -/
def Alone (s : CacheFiles lower isZero) : CacheFileAct lower isZero → Prop
  | .openPart _ => ∀ call ∈ s.stores, ¬ call.stage.Live
  | _ => True

/-- What is in the `.part` file of a store. -/
def Holds (s : CacheFiles lower isZero) (call : StoreCall lower isZero) : Prop :=
  match call.stage with
  | .writing file offset =>
    s.files.names .part = some file ∧ offset ≤ (text call.response.1).length ∧
      s.files.content file = (text call.response.1).take offset
  | .closed => s.files.read .part = some (text call.response.1)
  | .ready | .ended => True

structure Inv (s : CacheFiles lower isZero) : Prop where
  valid : s.files.Valid
  alone (i j : Nat) (c d : StoreCall lower isZero) : s.stores[i]? = some c → s.stores[j]? = some d →
    c.stage.Live → d.stage.Live → i = j
  holds (i : Nat) (c : StoreCall lower isZero) : s.stores[i]? = some c → s.Holds c
  entry (bytes : List UInt8) : s.files.read .entry = some bytes → ∃ r ∈ s.given, r.Built lower isZero ∧ bytes = text r
  loads (r : FullResponse) : some r ∈ s.loads → r ∈ s.given

/-- A store at whose stage no file is its own has ended. -/
theorem Holds.of_not_live (h : ¬ call.stage.Live) : s.Holds call := by
  unfold Holds
  unfold StoreStage.Live at h
  split <;> simp_all

/-- A step of the only live store. -/
theorem Inv.step (h : Inv s) (hi : s.stores[i]? = some call) {st : StoreStage} {files : Files CacheFile}
    (hothers : ∀ j c, j ≠ i → s.stores[j]? = some c → st.Live → ¬ c.stage.Live)
    (hfiles : ∀ j c, j ≠ i → s.stores[j]? = some c → c.stage.Live → files = s.files)
    (hvalid : files.Valid)
    (hholds : Holds { s.setStage i st with files } { call with stage := st })
    (hentry : ∀ bytes, files.read .entry = some bytes → s.files.read .entry = some bytes ∨
      bytes = text call.response.1) :
    Inv { s.setStage i st with files } := by
  have hget : ∀ (j : Nat) (c : StoreCall lower isZero), (s.setStage i st).stores[j]? = some c →
      j = i ∧ c = { call with stage := st } ∨ j ≠ i ∧ s.stores[j]? = some c := by
    intro j c hj
    rw [stores_setStage] at hj
    split at hj
    · rename_i hij
      subst hij
      rw [hi] at hj
      exact .inl ⟨rfl, (Option.some.inj hj).symm⟩
    · exact .inr ⟨Ne.symm ‹_›, hj⟩
  have hgiven : given { s.setStage i st with files } = s.given := given_setStage st
  refine ⟨hvalid, fun j k c d hj hk hc hd => ?_, fun j c hj => ?_, fun bytes hb => ?_, fun r hr => ?_⟩
  · rcases hget j c hj with ⟨rfl, rfl⟩ | ⟨hji, hj⟩ <;> rcases hget k d hk with ⟨hki, rfl⟩ | ⟨hki, hk⟩
    · exact hki.symm
    · exact absurd hd (hothers k d hki hk hc)
    · exact absurd hc (hothers j c hji hj hd)
    · exact h.alone j k c d hj hk hc hd
  · rcases hget j c hj with ⟨rfl, rfl⟩ | ⟨hji, hj⟩
    · exact hholds
    · by_cases hc : c.stage.Live
      · have hsame := hfiles j c hji hj hc
        have hold := h.holds j c hj
        unfold Holds at hold ⊢
        rw [hsame]
        exact hold
      · exact .of_not_live hc
  · rw [hgiven]
    rcases hentry bytes hb with hb | rfl
    · exact h.entry bytes hb
    · exact ⟨_, mem_given hi, call.response.2, rfl⟩
  · rw [hgiven]
    exact h.loads r hr

theorem Inv.store (h : Inv s) (r : { r : FullResponse // r.Built lower isZero }) :
    Inv { s with stores := s.stores ++ [{ response := r }] } := by
  have hget : ∀ (j : Nat) (c : StoreCall lower isZero), (s.stores ++ [{ response := r }])[j]? = some c →
      s.stores[j]? = some c ∨ ¬ c.stage.Live := by
    intro j c hj
    rcases Nat.lt_or_ge j s.stores.length with hlt | hle
    · rw [List.getElem?_append_left hlt] at hj
      exact .inl hj
    · rw [List.getElem?_append_right hle, List.getElem?_singleton] at hj
      split at hj <;> cases hj
      exact .inr id
  have hgiven : ∀ q ∈ s.given, q ∈ given { s with stores := s.stores ++ [{ response := r }] } := by
    intro q hq
    unfold given
    rw [List.map_append]
    exact List.mem_append_left _ hq
  refine ⟨h.valid, fun j k c d hj hk hc hd => ?_, fun j c hj => ?_, fun bytes hb => ?_, fun q hq => hgiven q (h.loads q hq)⟩
  · rcases hget j c hj with hj | hj
    · rcases hget k d hk with hk | hk
      · exact h.alone j k c d hj hk hc hd
      · exact absurd hd hk
    · exact absurd hc hj
  · rcases hget j c hj with hj | hj
    · exact h.holds j c hj
    · exact .of_not_live hj
  · obtain ⟨q, hq, hb⟩ := h.entry bytes hb
    exact ⟨q, hgiven q hq, hb⟩

/-- The other stores of a live one have nothing open. -/
theorem Inv.others (h : Inv s) (hi : s.stores[i]? = some call) (hl : call.stage.Live) (j : Nat)
    (c : StoreCall lower isZero) (hji : j ≠ i) (hj : s.stores[j]? = some c) : ¬ c.stage.Live :=
  fun hc => hji (h.alone j i c call hj hi hc hl)

/-- A live store leaves the files as they are. -/
theorem Inv.stage (h : Inv s) (hi : s.stores[i]? = some call) {st : StoreStage}
    (hl : st.Live → call.stage.Live) (hholds : Holds (s.setStage i st) { call with stage := st }) :
    Inv (s.setStage i st) := by
  have hstep : Inv { s.setStage i st with files := s.files } :=
    h.step hi (fun j c hji hj hst => h.others hi (hl hst) j c hji hj)
      (fun _ _ _ _ _ => rfl) h.valid hholds fun bytes hb => .inl hb
  exact hstep

theorem read_rename {files : Files CacheFile} {fs : Files CacheFile} (h : fs.rename .part .entry = some files) :
    files.read .entry = fs.read .part := by
  obtain ⟨f, hf, rfl⟩ := Option.map_eq_some_iff.mp h
  simp [Files.read, hf]

theorem inv_step (h : Inv s) {a : CacheFileAct lower isZero} (ha : Alone s a) (ht : step s a = some t) : Inv t := by
  cases a with
  | store r =>
    cases ht
    exact h.store r
  | openPart i =>
    simp only [CacheFiles.step] at ht
    split at ht <;> cases ht
    rename_i r hi
    have hnone : ∀ j c, j ≠ i → s.stores[j]? = some c → ¬ c.stage.Live :=
      fun j c _ hj => ha c (List.mem_of_getElem? hj)
    refine h.step hi (fun j c hji hj _ => hnone j c hji hj) (fun j c hji hj hc => absurd hc (hnone j c hji hj))
      (Files.valid_openWrite h.valid) ⟨Files.openWrite_names, Nat.zero_le _, ?_⟩ fun bytes hb => .inl ?_
    · exact Files.openWrite_content
    · rwa [Files.read_openWrite h.valid (by decide)] at hb
  | write i n =>
    simp only [CacheFiles.step] at ht
    split at ht <;> cases ht
    rename_i r file offset hi
    have hothers := h.others hi trivial
    have hholds := h.holds i _ hi
    obtain ⟨hname, (hle : offset ≤ (text r.1).length), hcontent⟩ := hholds
    refine h.step hi (fun j c hji hj _ => hothers j c hji hj) (fun j c hji hj hc => absurd hc (hothers j c hji hj))
      (Files.valid_write h.valid _ _ _) ⟨hname, ?_, ?_⟩ fun bytes hb => .inl ?_
    · simp only [List.length_take, List.length_drop]
      omega
    · have htake : ((text r.1).drop offset).take n =
          ((text r.1).drop offset).take (((text r.1).drop offset).take n).length := by
        rw [List.length_take, List.take_eq_take_iff]
        omega
      simp only [Files.write, Function.update_self, hcontent]
      conv_lhs => rw [htake]
      exact Files.splice_take (text r.1) offset _ hle
    · have hne : s.files.names .entry ≠ some file := fun he => by
        cases h.valid.inj .entry .part file he hname
      rwa [Files.read_write_of_ne hne] at hb
  | close i =>
    simp only [CacheFiles.step] at ht
    split at ht
    · rename_i r file offset hi
      split at ht <;> cases ht
      rename_i hlen
      obtain ⟨hname, _, hcontent⟩ := h.holds i _ hi
      refine h.stage hi (fun _ => trivial) ?_
      show (s.files.names .part).map s.files.content = some (text r.1)
      rw [hname, Option.map_some, hcontent, hlen, List.take_length]
    · cases ht
  | replace i =>
    simp only [CacheFiles.step] at ht
    split at ht <;> cases ht
    rename_i r hi
    have hothers := h.others hi trivial
    have hpart : s.files.read .part = some (text r.1) := h.holds i _ hi
    refine h.step hi (fun j c hji hj _ => hothers j c hji hj) (fun j c hji hj hc => absurd hc (hothers j c hji hj))
      ?_ trivial fun bytes hb => ?_
    · cases hr : s.files.rename .part .entry with
      | none => exact h.valid
      | some files => exact Files.valid_rename h.valid hr
    · cases hr : s.files.rename .part .entry with
      | none =>
        rw [hr] at hb
        exact .inl hb
      | some files =>
        rw [hr, Option.getD_some, read_rename hr, hpart] at hb
        exact .inr (Option.some.inj hb).symm
  | crash i =>
    simp only [CacheFiles.step] at ht
    split at ht <;> cases ht
    exact h.stage ‹_› (fun hst => absurd hst id) trivial
  | load expired =>
    cases ht
    refine ⟨h.valid, h.alone, h.holds, h.entry, fun r hr => ?_⟩
    rcases List.mem_append.mp hr with hr | hr
    · exact h.loads r hr
    · have hload : s.load expired = some r := (List.mem_singleton.mp hr).symm
      unfold load at hload
      split at hload
      · cases hload
      · obtain ⟨bytes, hb, hparse⟩ := Option.bind_eq_some_iff.mp hload
        obtain ⟨q, hq, hbuilt, rfl⟩ := h.entry bytes hb
        rw [parse_text hbuilt] at hparse
        exact Option.some.inj hparse ▸ hq
  | clear =>
    cases ht
    have hpart : (s.files.unlink .entry).names .part = s.files.names .part := Files.unlink_names_of_ne (by decide)
    refine ⟨Files.valid_unlink h.valid _, h.alone, fun j c hj => ?_, fun bytes hb => ?_, h.loads⟩
    · have hold := h.holds j c hj
      unfold Holds Files.read at hold ⊢
      simp only [hpart]
      exact hold
    · simp [Files.read, Files.unlink] at hb

/-- While no two stores overlap, what a load returns has been given to a store. -/
theorem loads_given (h : (machine lower isZero).Within Alone s) (r : FullResponse) (hr : some r ∈ s.loads) :
    r ∈ s.given := by
  have hinv : Inv s := by
    refine Machine.Within.induct (I := Inv) ?_ (fun s a t hi ha ht => inv_step hi ha ht) h
    rintro s rfl
    exact {
      valid := ⟨fun _ _ hn => (nomatch hn), fun _ _ _ hn => (nomatch hn)⟩
      alone := fun _ _ _ _ hn => nomatch hn
      holds := fun _ _ hn => nomatch hn
      entry := fun _ hb => nomatch hb
      loads := fun _ hr => nomatch hr }
  exact hinv.loads r hr

/-! ## Two stores -/

instance (stage : StoreStage) : Decidable stage.Live :=
  match stage with
  | .ready | .ended => isFalse id
  | .writing _ _ | .closed => isTrue trivial

instance (s : CacheFiles lower isZero) (a : CacheFileAct lower isZero) : Decidable (Alone s a) :=
  match a with
  | .openPart _ => inferInstanceAs (Decidable (∀ call ∈ s.stores, ¬ call.stage.Live))
  | .store _ | .write _ _ | .close _ | .replace _ | .crash _ | .load _ | .clear => isTrue trivial

def page (content : List UInt8) : FullResponse where
  url := .str "u"
  statusCode := .int 200
  content := content

theorem built_page (content : List UInt8) : (page content).Built id fun _ => false :=
  ⟨trivial, trivial, ⟨List.nodup_nil, trivial⟩, fun _ h => (nomatch h), ⟨⟨List.nodup_nil, trivial⟩, rfl⟩, trivial, trivial,
    ⟨trivial, rfl⟩⟩

def giving (content : List UInt8) : CacheFileAct id fun _ => false := .store ⟨page content, built_page content⟩

def after (as : List (CacheFileAct id fun _ => false)) : CacheFiles id fun _ => false :=
  ((machine id fun _ => false).exec {} as).getD {}

/-- A store crashes in its text, and the next one writes over it. -/
def afterCrash : List (CacheFileAct id fun _ => false) :=
  [giving [0, 0, 0], giving [255, 255, 255], .openPart 0, .write 0 100, .crash 0, .openPart 1, .write 1 60,
    .write 1 1000, .close 1, .replace 1]

/-- The second store opens the file before the first one has written, and has written but
the end of its text when the first one renames it. -/
def twoStores : List (CacheFileAct id fun _ => false) :=
  [giving [0, 0, 0], giving [255, 255, 255], .openPart 0, .openPart 1, .write 0 1000, .write 1 131, .close 0, .replace 0]

theorem exec_after {as : List (CacheFileAct id fun _ => false)}
    (h : ((machine id fun _ => false).exec {} as).isSome = true) :
    (machine id fun _ => false).exec {} as = some (after as) := by
  obtain ⟨s, hs⟩ := Option.isSome_iff_exists.mp h
  unfold after
  rw [hs]
  rfl

/-- A load of an entry that is the text of a page. -/
theorem mem_loads {as : List (CacheFileAct id fun _ => false)} {content : List UInt8}
    (h : ((machine id fun _ => false).exec {} as).isSome = true)
    (hread : (after as).files.read .entry = some (text (page content))) :
    some (page content) ∈ (after (as ++ [CacheFileAct.load false])).loads := by
  have hload : (after as).load false = some (page content) := by
    unfold load
    rw [hread, if_neg (by decide), Option.bind_some]
    exact parse_text (built_page content)
  have hafter : (after (as ++ [CacheFileAct.load false])).loads = (after as).loads ++ [(after as).load false] := by
    conv_lhs => rw [after, Machine.exec_append, exec_after h]
    rfl
  rw [hafter, hload]
  exact List.mem_append_right _ (List.mem_singleton_self _)

theorem loads_given_afterCrash : page [255, 255, 255] ∈ (after (afterCrash ++ [.load false])).given := by
  have hwithin : (machine id fun _ => false).Within Alone (after (afterCrash ++ [CacheFileAct.load false])) :=
    Machine.Within.exec (.start rfl) (by decide +kernel) (exec_after (by decide +kernel))
  exact loads_given hwithin (page [255, 255, 255]) (mem_loads (by decide +kernel) (by decide +kernel))

theorem mixture_loaded :
    ¬ ∀ (lower : String → String) (isZero : String → Bool) (s : CacheFiles lower isZero),
      (machine lower isZero).Reachable s → ∀ r, some r ∈ s.loads → r ∈ s.given := by
  intro h
  have hload : some (page [255, 240, 0]) ∈ (after (twoStores ++ [CacheFileAct.load false])).loads :=
    mem_loads (by decide +kernel) (by decide +kernel)
  have hreach : (machine id fun _ => false).Reachable (after (twoStores ++ [CacheFileAct.load false])) :=
    Machine.Reachable.exec (.start rfl) (exec_after (by decide +kernel))
  have hgiven := List.mem_map_of_mem (f := FullResponse.content) (h _ _ _ hreach (page [255, 240, 0]) hload)
  have hnot : (page [255, 240, 0]).content ∉
      (after (twoStores ++ [CacheFileAct.load false])).given.map FullResponse.content := by
    decide +kernel
  exact hnot hgiven

end CacheFiles

end Netspy
