import WolfCose.Sign.Selection
import WolfCose.Sign.Sign
import WolfCose.Sign1.RoundTrip

/-!
# Signing and verifying a COSE_Sign message

The loop of `wc_CoseSign_Sign` makes one signature after the other, and the message is its
fields followed by these signatures.  At every index the signature there is accepted when it is
selected and all others are skipped, so `wc_CoseSign_Verify` verifies what this signer signed.
-/

namespace WolfCose

open Program Cbor Settings WolfCrypt

section

variable [WolfCrypt] [Settings]

/-! ### One signer -/

/-- A signature in a message: its signer, its protected header and its bytes. -/
structure SignatureEntry where
  signer : Signer
  protectedHdr : Bytes
  sig : Bytes

/-- The encoding of a signature. -/
def SignatureEntry.bytes (entry : SignatureEntry) : Bytes :=
  signatureBytes entry.protectedHdr entry.signer.kid entry.sig

/-- The structure that a signer with the given protected header signs. -/
def SignArgs.structureOf (args : SignArgs) (protectedHdr : Bytes) : Bytes :=
  (sigStructure [] protectedHdr args.extAad.bytes args.sigPayload.bytes).bytes

/-- A round of the loop made the signature with the key of its signer. -/
structure SignatureEntry.MadeWith (entry : SignatureEntry) (args : SignArgs) (scratchSz : Nat) (key : Key) :
    Prop where
  key_eq : entry.signer.key = some key
  encoded : algProtectedHdr entry.signer.algId = .ok entry.protectedHdr
  valid : args.extAad.Valid ∧ args.sigPayload.Valid
  room : (args.structureOf entry.protectedHdr).length ≤ scratchSz
  made : ∃ s s', key.Made entry.signer.algId args.rng scratchSz (args.structureOf entry.protectedHdr) entry.sig s s'

/-- The digest that a local signer signs is that of the structure. -/
theorem signerDigest_ok {key : Key} {alg : Int} {tbs : Bytes} {hashType : Option HashType}
    {hashed : Option (HashType × Bytes)} (hty : signerHashType key alg = .ok hashType)
    (h : signerDigest alg tbs hashType = .ok hashed) (r : HashType × Bytes) (hr : digestBuffer hashed = .ok r) :
  Digest alg tbs r.1 r.2
  := by
  unfold signerHashType at hty
  split at hty
  · simp only [bind_eq_ok, lift_eq_ok, pure_eq_ok] at hty
    obtain ⟨hashType, hty, rfl⟩ := hty
    unfold signerDigest at h
    split at h
    · rename_i hashType' heq
      obtain rfl := Option.some.inj heq
      split at h
      · simp only [bind_eq_ok, pure_eq_ok] at h
        obtain ⟨digest, hdigest, rfl⟩ := h
        obtain rfl := Except.ok.inj hr
        apply hashFor_eq_ok.mp
        simp only [hashFor, bind_eq_ok, lift_eq_ok, pure_eq_ok]
        exact ⟨_, hty, digest, hdigest, rfl⟩
      · rw [pure_eq_ok] at h
        rw [← h] at hr
        cases hr
    · rename_i heq
      cases heq
  · rw [pure_eq_ok] at hty
    rw [← hty, signerDigest, pure_eq_ok] at h
    rw [← h] at hr
    cases hr

theorem runs_signSignTbs {signer : Signer} {key : Key} {hashed : Option (HashType × Bytes)} {tbs sig : Bytes}
    {scratchSz : Nat} {rng : Option Rng} {s s' : SignState} (hkey : signer.key = some key)
    (hcheck : signerCheck signer = .ok ())
    (hd : ∀ r, digestBuffer hashed = .ok r → Digest signer.algId tbs r.1 r.2)
    (h : Runs (signSignTbs key signer.algId hashed tbs scratchSz rng) s sig s') :
  key.Made signer.algId rng scratchSz tbs sig s s'
  := by
  simp only [signerCheck, hkey, bind_eq_ok, failWhen_eq_ok] at hcheck
  obtain ⟨_, -, _, -, _, -, hcheck⟩ := hcheck
  unfold signSignTbs at h
  unfold Key.Made
  split at h
  · rename_i hdel
    rw [if_pos hdel]
    apply runs_signDelegated h
  rename_i hlocal
  rw [if_neg hlocal] at hcheck
  rw [if_neg hlocal]
  split at h
  · rename_i halg
    simp only [if_pos halg, bind_eq_ok, failAs_eq_ok, lift_eq_ok] at hcheck
    obtain ⟨_, -, _, hcrv, -⟩ := hcheck
    apply runs_signEcdsa halg hcrv hd h
  split at h
  · rename_i halg
    apply runs_signEddsa halg h
  split at h
  · rename_i halg
    apply runs_signPss halg.2 hd h
  split at h
  · rename_i halg
    apply runs_signMlDsa halg.2 h
  split at h
  · rename_i halg
    rw [halg.2.2]
    apply runs_signLms h
  · cases h

/-- One round of the loop makes a signature with the key of its signer and writes it. -/
theorem signOne_made {args : SignArgs} {scratch : Buffer} {ctx ctx' : EncCtx} {signer : Signer} {s s' : SignState}
    (hcheck : signerCheck signer = .ok ()) (h : Runs (signOne args scratch ctx signer) s ctx' s') :
  ∃ key protectedHdr sig, signer.key = some key ∧ algProtectedHdr signer.algId = .ok protectedHdr
    ∧ (args.extAad.Valid ∧ args.sigPayload.Valid)
    ∧ (args.structureOf protectedHdr).length ≤ scratch.bytes.length
    ∧ key.Made signer.algId args.rng scratch.bytes.length (args.structureOf protectedHdr) sig s s'
    ∧ ctx.Writes (signatureBytes protectedHdr signer.kid sig) ctx'
  := by
  unfold signOne at h
  split at h
  · cases h
  rename_i key hkey
  simp only [runs_bind, runs_check, lift_eq_ok, signerTbs, buildToBeSignedMaced_eq_ok] at h
  obtain ⟨hashType, _, ⟨hty, rfl⟩, protectedHdr, _, ⟨hprot, rfl⟩, tbs, _, ⟨⟨-, -, -, haad, hvalid, ⟨_, hscr, hroom⟩,
    htbs⟩, rfl⟩, hashed, _, ⟨hhash, rfl⟩, sig, s₁, hsig, henc, rfl⟩ := h
  obtain rfl := Option.some.inj hscr
  have hmade := runs_signSignTbs hkey hcheck (signerDigest_ok hty hhash) hsig
  have htbs' : tbs = args.structureOf protectedHdr := htbs
  rw [htbs'] at hmade hroom
  refine ⟨key, protectedHdr, sig, hkey, hprot, ⟨haad, hvalid⟩, hroom, hmade, ?_⟩
  apply (encodeAt_eq_ok (emits_encodeSignature _ _ _)).mp henc

/-- One round of the loop makes an entry of the message. -/
theorem runs_signOne {args : SignArgs} {scratch : Buffer} {ctx ctx' : EncCtx} {signer : Signer} {s s' : SignState}
    (hcheck : signerCheck signer = .ok ()) (h : Runs (signOne args scratch ctx signer) s ctx' s') :
  ∃ entry : SignatureEntry, entry.signer = signer ∧ (∃ key, entry.MadeWith args scratch.bytes.length key)
    ∧ ctx.Writes entry.bytes ctx'
  := by
  obtain ⟨key, protectedHdr, sig, hkey, hprot, hvalid, hroom, hmade, hwrites⟩ := signOne_made hcheck h
  exact ⟨⟨signer, protectedHdr, sig⟩, rfl, ⟨key, hkey, hprot, hvalid, hroom, s, s', hmade⟩, hwrites⟩

/-- The loop makes one signature for every signer and writes them one after another. -/
theorem runs_signLoop {args : SignArgs} {scratch : Buffer} {signers : List Signer} {ctx ctx' : EncCtx}
    {s s' : SignState} (hcheck : ∀ signer ∈ signers, signerCheck signer = .ok ())
    (h : Runs (signers.foldlM (signOne args scratch) ctx) s ctx' s') :
  ∃ entries : List SignatureEntry, entries.map SignatureEntry.signer = signers
    ∧ (∀ entry ∈ entries, ∃ key, entry.MadeWith args scratch.bytes.length key)
    ∧ ctx.Writes (entries.flatMap SignatureEntry.bytes) ctx'
  := by
  induction signers generalizing ctx s with
  | nil =>
      rw [List.foldlM_nil, runs_pure] at h
      obtain ⟨rfl, -⟩ := h
      refine ⟨[], rfl, List.forall_mem_nil _, fun h => absurd rfl h, ?_⟩
      rw [List.flatMap_nil, EncCtx.put_nil]
  | cons signer signers ih =>
      rw [List.foldlM_cons, runs_bind] at h
      obtain ⟨ctx₁, s₁, hfirst, hrest⟩ := h
      obtain ⟨hsigner, hsigners⟩ := List.forall_mem_cons.mp hcheck
      obtain ⟨entry, rfl, hentry, hw⟩ := runs_signOne hsigner hfirst
      obtain ⟨entries, rfl, hentries, hws⟩ := ih hsigners hrest
      refine ⟨entry :: entries, rfl, List.forall_mem_cons.mpr ⟨hentry, hentries⟩, ?_⟩
      rw [List.flatMap_cons, EncCtx.writes_append_iff]
      exact ⟨ctx₁, hw, hws⟩

/-! ### The message -/

/-- What a successful call of `wc_CoseSign_Sign` returns. -/
structure SignSigned (signers : List Signer) (args : SignArgs) (scratch out : Buffer)
    (entries : List SignatureEntry) (message : Bytes) : Prop where
  signers_eq : entries.map SignatureEntry.signer = signers
  nonempty : signers ≠ []
  payload : args.sigPayload.isNull = false
  lengths : args.lengthsFit scratch out
  made : ∀ entry ∈ entries, ∃ key, entry.MadeWith args scratch.bytes.length key
  message_eq : message = signFields args signers.length ++ entries.flatMap SignatureEntry.bytes
  message_le : message.length ≤ out.bytes.length

theorem signSign_ok {signers : Option (List Signer)} {args : SignArgs} {env : Env}
    (h : (signSign signers args env).ret = .ok ()) :
  ∃ signers' scratch out bytes outLen entries, signers = some signers'
    ∧ (signSign signers args env).out = some bytes ∧ (signSign signers args env).outLen = some outLen
    ∧ SignSigned signers' args scratch out entries (bytes.take outLen)
  := by
  obtain ⟨ctx, s, hruns, hret⟩ := signFinish_ok h
  have hret' : signSign signers args env = ⟨.ok (), some ctx.buf.bytes, some ctx.idx, s⟩ := hret
  rw [hret']
  split at hruns
  · rename_i signers' scratch out hscratch hout
    simp only [signSignMessage, runs_bind, runs_check] at hruns
    obtain ⟨_, _, ⟨hprep, rfl⟩, ctx₁, _, ⟨henc, rfl⟩, hloop⟩ := hruns
    obtain ⟨hpayload, hcheck, -⟩ := signPrepare_ok hprep
    simp only [signPrepare, bind_eq_ok, failWhen_eq_ok] at hprep
    obtain ⟨_, hargs, _, -, _, hlen, -⟩ := hprep
    obtain ⟨entries, hentries, hmade, hwrites⟩ := runs_signLoop hcheck hloop
    have hall := (EncCtx.writes_append_iff).mpr ⟨ctx₁, (encodeAt_eq_ok (emits_encodeSignBody hpayload)).mp henc,
      hwrites⟩
    have hmessage := hall.written_eq (Nat.zero_le _)
    have hle := hall.idx_le (Nat.zero_le _)
    refine ⟨signers', scratch, out, _, _, entries, rfl, rfl, rfl, hentries, ?_, hpayload,
      Decidable.not_not.mp hlen, hmade, ?_, ?_⟩
    · intro hnil
      exact hargs (.inl (List.length_eq_zero_iff.mpr hnil))
    · rw [← EncCtx.written, hmessage]
      simp [EncCtx.written, EncCtx.init]
    · rw [List.length_take]
      have hsz : ctx.buf.bytes.length = out.bytes.length := by
        obtain ⟨-, rfl⟩ := hall
        exact EncCtx.bufSz_put _ _
      omega
  · cases hruns

omit [WolfCrypt] in
/-- A kid is skipped. -/
theorem skippedValue_kid {kid : Pointer} (hlen : hasKid kid → kid.bytes.length < 2 ^ 64) :
  SkippedValue 0 (kidBytes kid)
  := by
  have hmap := (@unprotected_kid _ false .init .zero kid rfl hlen (by rintro ⟨h, -⟩; cases h)).map
  obtain ⟨⟨_, -, -, hes⟩, -⟩ := hmap.entries
  rw [kidBytes_eq, bucketBytes, skippedValue_map_iff hmap.map.head fun e he => ⟨(hes e he).1, (hes e he).2.dataItem⟩]
  intro e he
  obtain ⟨entry, hentry, rfl⟩ := List.mem_map.mp he
  have hkid : hasKid kid ∧ entry = (hdrKid, kid.bytes) := by
    unfold kidEntries at hentry
    split at hentry
    · exact ⟨by assumption, List.mem_singleton.mp hentry⟩
    · cases hentry
  rw [hkid.2]
  apply (@bstrValue_stringBytes _ 0 _ (hlen hkid.1)).items

/-- The lengths of the fields of a signature in memory have 64 bits. -/
theorem SignatureEntry.lengths_lt {entry : SignatureEntry} (h : entry.bytes.length ≤ sizeMax) :
  entry.protectedHdr.length < 2 ^ 64 ∧ (hasKid entry.signer.kid → entry.signer.kid.bytes.length < 2 ^ 64)
    ∧ entry.sig.length < 2 ^ 64
  := by
  have hmax := sizeMax_lt
  simp only [SignatureEntry.bytes, signatureBytes, List.length_append, length_stringBytes] at h
  refine ⟨by omega, ?_, by omega⟩
  intro hk
  rw [kidBytes, if_pos hk, if_pos hk] at h
  simp only [List.length_append, length_stringBytes] at h
  omega

/-- Every signature is skipped when it is not selected. -/
theorem SignatureEntry.skipped {entry : SignatureEntry} (h : entry.bytes.length ≤ sizeMax) :
  SkippedSignature entry.bytes
  := by
  obtain ⟨hprot, hkid, hsig⟩ := SignatureEntry.lengths_lt h
  refine ⟨_, ⟨.ofHead .array 3, _, _, _, _, ?_, accepted_ofHead rfl (by decide) (by decide), rfl, rfl,
    bstrValue_stringBytes hprot, bstrValue_stringBytes hsig⟩, skippedValue_kid hkid⟩
  rw [Token.bytes_ofHead]
  rfl

/-- The header of a signature. -/
def SignatureEntry.headers (entry : SignatureEntry) : Headers :=
  ⟨entry.protectedHdr, { Hdr.zero with alg := entry.signer.algId, kid := hdrKidOf entry.signer.kid }, true⟩

/-- Every signature is accepted when it is selected, with a key that allows its algorithm. -/
theorem SignatureEntry.selected {entry : SignatureEntry} (h : entry.bytes.length ≤ sizeMax)
    (halg : inInt32Range entry.signer.algId = true)
    (hprot : algProtectedHdr entry.signer.algId = .ok entry.protectedHdr) {keyAlg : Int}
    (hpin : keyAlg = algUnset ∨ keyAlg = entry.signer.algId) :
  SelectedSignature keyAlg entry.bytes entry.headers entry.sig
  := by
  obtain ⟨-, hkid, hsig⟩ := SignatureEntry.lengths_lt h
  refine ⟨.ofHead .array 3, _, _, ?_, accepted_ofHead rfl (by decide) (by decide), rfl, rfl,
    headersValue_kid halg hprot hkid, bstrValue_stringBytes hsig, fun _ => rfl, hpin.resolve_left⟩
  rw [Token.bytes_ofHead]
  simp only [SignatureEntry.bytes, signatureBytes, List.append_assoc]

/-! ### Verification of what was signed -/

/-- What is found in a message at the index of a signature. -/
def SignArgs.signMessage (args : SignArgs) (entry : SignatureEntry) : SignMessage :=
  ⟨⟨[], .zero, false⟩, { Hdr.zero with flags := args.hdrFlags }, args.attached, entry.headers, entry.sig⟩

/-- The header that the verification of a signature returns. -/
def SignatureEntry.hdr (entry : SignatureEntry) (args : SignArgs) : Hdr :=
  { Hdr.zero with alg := entry.signer.algId, flags := args.hdrFlags }

theorem signBody_signFields {args : SignArgs} {signerCount : Nat} (entry : SignatureEntry)
    (hlen : (signFields args signerCount).length < 2 ^ 64) (hcount : signerCount < 2 ^ 64) :
  SignBody args.detached signerCount (signFields args signerCount) (args.signMessage entry)
  := by
  have hpayload : (payloadBytes args).length < 2 ^ 64 := by
    simp only [signFields, List.length_append] at hlen
    omega
  have hstart := @startValue_tag _ tagSign 4 True _ (by decide) (by decide)
  rw [if_pos trivial] at hstart
  have hempty : stringBytes .bstr [] ++ bucketBytes [] = stringBytes .bstr [] ++ preferredHead .map 0 := by
    rw [bucketBytes, mapBytes, Token.bytes_ofHead]
    rfl
  have hheaders := headersValue_empty
  rw [hempty] at hheaders
  refine ⟨_, _, _, .ofHead .array signerCount, ?_, hstart, hheaders, payloadValue_payloadBytes rfl hpayload,
    accepted_ofHead rfl (by decide) hcount, rfl, rfl⟩
  rw [Token.bytes_ofHead]
  simp only [signFields, List.append_assoc]

section Signed

variable {signers : List Signer} {args : SignArgs} {scratch out : Buffer} {entries : List SignatureEntry}
  {message : Bytes}

theorem SignSigned.length_entries (h : SignSigned signers args scratch out entries message) :
  entries.length = signers.length
  := by
  rw [← h.signers_eq, List.length_map]

theorem SignSigned.entry_le (h : SignSigned signers args scratch out entries message)
    (hlen : message.length ≤ sizeMax) {entry : SignatureEntry} (hentry : entry ∈ entries) :
  entry.bytes.length ≤ sizeMax
  := by
  rw [h.message_eq, List.length_append] at hlen
  have := length_le_length_flatMap (f := SignatureEntry.bytes) hentry
  omega

/-- The number of signatures in a message has 64 bits. -/
theorem SignSigned.lengths_lt (h : SignSigned signers args scratch out entries message)
    (hlen : message.length ≤ sizeMax) :
  (signFields args signers.length).length < 2 ^ 64 ∧ signers.length < 2 ^ 64
  := by
  have hmax := sizeMax_lt
  have hne : ∀ e ∈ entries.map SignatureEntry.bytes, e ≠ [] := by
    intro e he
    obtain ⟨entry, -, rfl⟩ := List.mem_map.mp he
    exact List.append_ne_nil_of_left_ne_nil (preferredHead_ne_nil _ _) _
  have hcount := Bytes.length_le_flatten hne
  rw [List.length_map, h.length_entries, ← List.flatMap_def] at hcount
  rw [h.message_eq, List.length_append] at hlen
  omega

/-- A message has the signatures of the signers. -/
theorem SignSigned.signEntries (h : SignSigned signers args scratch out entries message)
    (hlen : message.length ≤ sizeMax) :
  SignEntries message (entries.map SignatureEntry.bytes)
  := by
  obtain ⟨hfields, hcount⟩ := h.lengths_lt hlen
  have hitems : ∀ e ∈ entries.map SignatureEntry.bytes, DataItem e := by
    intro e he
    obtain ⟨entry, hentry, rfl⟩ := List.mem_map.mp he
    apply (SignatureEntry.skipped (h.entry_le hlen hentry)).dataItem
  obtain ⟨signer, hsigner⟩ := List.exists_mem_of_ne_nil _ h.nonempty
  have hbody := signBody_signFields ⟨signer, [], []⟩ hfields hcount
  rw [← h.length_entries, ← List.length_map SignatureEntry.bytes] at hbody
  rw [h.message_eq, List.flatMap_def, ← h.length_entries, ← List.length_map SignatureEntry.bytes]
  apply hbody.entries hitems

/-- A message is decoded at the index of a signature. -/
theorem SignSigned.decode (h : SignSigned signers args scratch out entries message) {input : Buffer}
    (hinput : input.bytes = message) {i : Nat} {entry : SignatureEntry} (hi : entries[i]? = some entry)
    (halg : inInt32Range entry.signer.algId = true) {keyAlg : Int}
    (hpin : keyAlg = algUnset ∨ keyAlg = entry.signer.algId) :
  decodeBuffer (decodeSign keyAlg i args.detached) input = .ok (args.signMessage entry)
  := by
  have hlen : message.length ≤ sizeMax := hinput ▸ input.length_le
  obtain ⟨hfields, hcount⟩ := h.lengths_lt hlen
  have hmem := List.mem_of_getElem? hi
  obtain ⟨hlt, hget⟩ := List.getElem?_eq_some_iff.mp hi
  have hsplit : entries = entries.take i ++ entry :: entries.drop (i + 1) := by
    rw [← hget, ← List.drop_eq_getElem_cons hlt, List.take_append_drop]
  have hskipped {es : List SignatureEntry} (hes : ∀ e ∈ es, e ∈ entries) :
      ∀ x ∈ es.map SignatureEntry.bytes, SkippedSignature x := by
    intro x hx
    obtain ⟨e, he, rfl⟩ := List.mem_map.mp hx
    apply SignatureEntry.skipped (h.entry_le hlen (hes e he))
  obtain ⟨key, hmade⟩ := h.made entry hmem
  rw [decodeSign_eq_ok]
  refine ⟨signFields args signers.length, (entries.take i).map SignatureEntry.bytes, entry.bytes,
    (entries.drop (i + 1)).map SignatureEntry.bytes, ?_, ?_, ?_, hskipped fun e he => List.mem_of_mem_take he,
    hskipped fun e he => List.mem_of_mem_drop he,
    SignatureEntry.selected (h.entry_le hlen hmem) halg hmade.encoded hpin⟩
  · rw [hinput, h.message_eq]
    conv => lhs; rw [hsplit]
    rw [List.flatMap_append, List.flatMap_cons, List.flatMap_def, List.flatMap_def]
  · have hn : ((entries.take i).map SignatureEntry.bytes).length
        + (((entries.drop (i + 1)).map SignatureEntry.bytes).length + 1) = signers.length := by
      rw [List.length_map, List.length_map, ← h.length_entries]
      conv => rhs; rw [hsplit]
      rw [List.length_append, List.length_cons]
    rw [hn]
    apply signBody_signFields entry hfields hcount
  · rw [List.length_map, List.length_take]
    omega

/-- Whether a message is verified at the index of a signature depends on this signature alone,
and the bytes that are verified are the structure that its signer signed. -/
theorem SignSigned.verify (h : SignSigned signers args scratch out entries message) {input scratch' : Buffer}
    (hinput : input.bytes = message) {i : Nat} {entry : SignatureEntry} (hi : entries[i]? = some entry)
    (halg : inInt32Range entry.signer.algId = true) {key' : Key}
    (hpin : key'.alg = algUnset ∨ key'.alg = entry.signer.algId)
    (hroom : (args.structureOf entry.protectedHdr).length ≤ scratch'.bytes.length) :
  signVerifyMessage key' i input args.detached args.extAad scratch'
    = (signVerifyTbs key' entry.signer.algId (args.structureOf entry.protectedHdr) entry.sig
        scratch'.bytes.length).map fun _ => (entry.hdr args, args.attached)
  := by
  have hdec := h.decode hinput hi halg hpin
  obtain ⟨key, hmade⟩ := h.made entry (List.mem_of_getElem? hi)
  have hbuild : lift (buildToBeSignedMaced (.mem ctxSignature) (.mem []) (.mem entry.protectedHdr) args.extAad
      (verifyPayload args.detached args.attached) (some scratch')) = .ok (args.structureOf entry.protectedHdr) := by
    rw [lift_eq_ok, buildToBeSignedMaced_eq_ok]
    refine ⟨rfl, isUtf8_ctx (List.mem_cons_of_mem _ (List.mem_cons_self ..)), Pointer.valid_mem _,
      hmade.valid.1, hmade.valid.2.verifyPayload, ⟨_, rfl, hroom⟩, ?_⟩
    rw [SignArgs.structureOf, ← verifyPayload_attached args]
    rfl
  simp only [signVerifyMessage, hdec, ok_bind]
  change (lift (buildToBeSignedMaced (.mem ctxSignature) (.mem []) (.mem entry.protectedHdr) args.extAad
    (verifyPayload args.detached args.attached) (some scratch')) >>= _) = _
  rw [hbuild, ok_bind]
  change (signVerifyTbs key' entry.signer.algId _ entry.sig _ >>= _) = _
  cases signVerifyTbs key' entry.signer.algId (args.structureOf entry.protectedHdr) entry.sig
      scratch'.bytes.length with
  | ok _ => rfl
  | error _ => rfl

/-- There is no signature at an index that is not below the number of signers. -/
theorem SignSigned.index_lt (h : SignSigned signers args scratch out entries message) {input : Buffer}
    (hinput : input.bytes = message) {keyAlg : Int} {i : Nat} {detached : Pointer} {msg : SignMessage}
    (hdec : decodeBuffer (decodeSign keyAlg i detached) input = .ok msg) :
  i < signers.length
  := by
  rw [decodeSign_eq_ok] at hdec
  obtain ⟨body, before, e, after, hbytes, hbody, rfl, hbefore, hafter, he⟩ := hdec
  have hours := h.signEntries (hinput ▸ input.length_le)
  have hitems : ∀ x ∈ before ++ e :: after, DataItem x := by
    rw [List.forall_mem_append, List.forall_mem_cons]
    exact ⟨fun x hx => (hbefore x hx).dataItem, he.dataItem, fun x hx => (hafter x hx).dataItem⟩
  have htheirs : SignEntries input.bytes (before ++ e :: after) := by
    have hn : before.length + (after.length + 1) = (before ++ e :: after).length := by
      rw [List.length_append, List.length_cons]
    rw [hn] at hbody
    rw [hbytes, ← List.flatten_cons, ← List.flatten_append]
    apply hbody.entries hitems
  rw [hinput] at htheirs
  have hlen := congrArg List.length (hours.unique htheirs)
  rw [List.length_map, h.length_entries, List.length_append, List.length_cons] at hlen
  omega

end Signed

omit [WolfCrypt] [Settings] in
theorem length_sigStructure (bodyProtected signProtected extAad payload : Bytes) :
  (sigStructure bodyProtected signProtected extAad payload).bytes.length
    = 11 + (stringBytes .bstr bodyProtected).length + (stringBytes .bstr signProtected).length
      + (stringBytes .bstr extAad).length + (stringBytes .bstr payload).length
  := by
  have hhead : (preferredHead .array 5).length = 1 := rfl
  have hcontext : (stringBytes .tstr ctxSignature).length = 10 := rfl
  simp only [sigStructure, AuthStructure.bytes, AuthStructure.tokens, AuthStructure.optionalString,
    AuthStructure.optionalFields, Option.map_some, Option.toList_some, Option.isSome_some, Option.isSome_none,
    Bool.toNat_true, Bool.toNat_false, List.cons_append, List.nil_append, List.flatMap_cons, List.flatMap_nil,
    List.append_nil, Token.bytes_ofHead, Token.bytes_ofString, List.length_append, hhead, hcontext]
  omega

/-- The digest that is computed before the dispatch is the one of the family of the algorithm. -/
theorem signDigest_of_input {key : Key} {alg : Int} {tbs input : Bytes} (hmatch : key.Matches alg)
    (hinput : SignedInput alg tbs input) :
  ∃ hashed, signDigest alg tbs = .ok hashed
    ∧ (Hashes alg → ∀ hashType, Digest alg tbs hashType input → digestBuffer hashed = .ok (hashType, input))
  := by
  unfold signDigest
  by_cases hh : Hashes alg
  · rw [SignedInput, if_pos hh] at hinput
    obtain ⟨hashType, hd⟩ := hinput
    have hval : alg ≠ -46 ∧ algIsEddsa alg = false ∧ algIsMlDsa alg = false := by
      rcases hh with h | h
      · have := algIsEcdsa_values h
        exact ⟨by omega, algIsEddsa_eq_false (by omega), algIsMlDsa_eq_false (by omega)⟩
      · have := algIsPss_values h
        exact ⟨by omega, algIsEddsa_eq_false (by omega), algIsMlDsa_eq_false (by omega)⟩
    have hhash : hashFor alg tbs = .ok (hashType, input) := hashFor_eq_ok.mpr hd
    rw [if_pos ⟨hval.2.1, hval.2.2, hval.1⟩, hhash]
    refine ⟨some (hashType, input), rfl, ?_⟩
    intro _ hashType' hd'
    obtain rfl := Except.ok.inj (hd.1.symm.trans hd'.1)
    rfl
  · rw [if_neg]
    · exact ⟨none, rfl, fun h => absurd h hh⟩
    rintro ⟨heddsa, hmldsa, hne⟩
    cases hmatch with
    | ecdsa halg => exact hh (.inl halg)
    | ed25519 halg => exact Bool.false_ne_true (heddsa.symm.trans halg)
    | ed448 halg => exact Bool.false_ne_true (heddsa.symm.trans halg)
    | pss _ halg => exact hh (.inr halg)
    | mldsa _ halg => exact Bool.false_ne_true (hmldsa.symm.trans halg)
    | lms _ halg => exact hne halg

theorem signVerifyTbs_of_accepts {key : Key} {alg : Int} {tbs input sig : Bytes} {scratchSz : Nat}
    (hmatch : key.Matches alg) (hlen : VerifiableLength alg tbs) (hinput : SignedInput alg tbs input)
    (hacc : key.object.Accepts alg input sig) (hroom : sig.length ≤ scratchSz) :
  signVerifyTbs key alg tbs sig scratchSz = .ok ()
  := by
  obtain ⟨hashed, hhashed, hdigest⟩ := signDigest_of_input hmatch hinput
  have hver := hmatch.verifies hlen hinput hdigest hacc hroom
  rw [signVerifyTbs, hhashed, ok_bind]
  cases hver with
  | ecdsa hecdsa heddsa h => rwa [if_pos hecdsa]
  | eddsa hecdsa heddsa h => rwa [hecdsa, if_neg Bool.false_ne_true, if_pos heddsa]
  | pss hecdsa heddsa hpss h =>
      rwa [hecdsa, heddsa, if_neg Bool.false_ne_true, if_neg Bool.false_ne_true, if_pos hpss]
  | mldsa hecdsa heddsa hpss hmldsa h =>
      rwa [hecdsa, heddsa, if_neg Bool.false_ne_true, if_neg Bool.false_ne_true, if_neg hpss, if_pos hmldsa]
  | lms hecdsa heddsa hpss hmldsa hlms h =>
      rwa [hecdsa, heddsa, if_neg Bool.false_ne_true, if_neg Bool.false_ne_true, if_neg hpss, if_neg hmldsa,
        if_pos hlms]

/-- A call whose lengths fit returns what its steps return. -/
theorem signVerify_eq {key : Key} {signerIndex : Nat} {input scratch : Buffer} {detached extAad : Pointer}
    {hdr : Hdr} {payload : Option Bytes} {payloadLen : Nat} (hinput : lenFitsWord32 input.bytes.length = true)
    (hdetached : lenFitsWord32 detached.len = true) (hextAad : lenFitsWord32 extAad.len = true)
    (hscratch : lenFitsWord32 scratch.bytes.length = true) :
  signVerify ⟨some key, some input, detached, extAad, some scratch⟩ signerIndex
      ⟨some hdr, some payload, some payloadLen⟩
    = VerifyOut.finish ⟨some hdr, some payload, some payloadLen⟩
        (signVerifyMessage key signerIndex input detached extAad scratch)
  := by
  simp only [signVerify, hinput, hdetached, hextAad, hscratch]
  rfl

/-- A message of any number of signers is verified at the index of each of them with its public
key: the bytes that are verified are the structure that this signer signed, and the verification
returns the payload and the algorithm of the signer.  It fails at every other index.  For
HSS-LMS a delegated signer must not have signed a structure whose length is no `int`. -/
theorem sign_sign_verify {pub : PublicOf} (hscheme : CorrectScheme pub) {signers : List Signer} {args : SignArgs}
    {env : Env} (hsign : (signSign (some signers) args env).ret = .ok ())
    (hlen : ∀ signer ∈ signers, ∀ key, signer.key = some key → key.delegated = true →
      ∀ protectedHdr, algProtectedHdr signer.algId = .ok protectedHdr →
        VerifiableLength signer.algId (args.structureOf protectedHdr)) :
  ∃ (bytes : Bytes) (outLen : Nat) (entries : List SignatureEntry),
    (signSign (some signers) args env).out = some bytes
    ∧ (signSign (some signers) args env).outLen = some outLen ∧ entries.map SignatureEntry.signer = signers
    ∧ bytes.take outLen = signFields args signers.length ++ entries.flatMap SignatureEntry.bytes
    ∧ ∀ input, input.bytes = bytes.take outLen →
      (∀ i entry, entries[i]? = some entry → ∃ key scratchSz, entry.MadeWith args scratchSz key
        ∧ ∀ key' scratch, key'.Matches entry.signer.algId →
          (key'.alg = algUnset ∨ key'.alg = entry.signer.algId) → key.HasPublic pub entry.signer.algId key' →
          SufficientScratch scratch (args.structureOf entry.protectedHdr) entry.sig →
          signVerifyMessage key' i input args.detached args.extAad scratch
              = ((signVerifyTbs key' entry.signer.algId (args.structureOf entry.protectedHdr) entry.sig
                  scratch.bytes.length).map fun _ => (entry.hdr args, args.attached))
            ∧ ∀ hdr payload payloadLen,
              signVerify ⟨some key', some input, args.detached, args.extAad, some scratch⟩ i
                  ⟨some hdr, some payload, some payloadLen⟩
                = (.ok (), .verified (entry.hdr args) args.attached))
      ∧ ∀ i verifyArgs out, signers.length ≤ i → verifyArgs.input = some input →
        (signVerify verifyArgs i out).1 ≠ .ok ()
  := by
  obtain ⟨signers', scratch, out, bytes, outLen, entries, hsigners, hout, houtLen, hsigned⟩ := signSign_ok hsign
  obtain rfl := Option.some.inj hsigners
  refine ⟨bytes, outLen, entries, hout, houtLen, hsigned.signers_eq, hsigned.message_eq, ?_⟩
  intro input hinput
  constructor
  · intro i entry hi
    have hmem := List.mem_of_getElem? hi
    obtain ⟨key, hmade⟩ := hsigned.made entry hmem
    refine ⟨key, _, hmade, ?_⟩
    intro key' scratch' hmatch hpin hpub hscratch
    have hret := hsigned.verify hinput hi hmatch.inInt32Range hpin hscratch.tbs
    refine ⟨hret, ?_⟩
    intro hdr payload payloadLen
    obtain ⟨s, s', hmade'⟩ := hmade.made
    obtain ⟨signed, hsignedInput, hacc⟩ := hmade'.accepts hscheme hpub
    have hverifiable : VerifiableLength entry.signer.algId (args.structureOf entry.protectedHdr) := by
      cases hdel : key.delegated with
      | true =>
          have hsigner : entry.signer ∈ signers := by
            rw [← hsigned.signers_eq]
            apply List.mem_map_of_mem hmem
          apply hlen _ hsigner key hmade.key_eq hdel _ hmade.encoded
      | false => apply hmade'.verifiableLength hdel
    rw [signVerifyTbs_of_accepts hmatch hverifiable hsignedInput hacc hscratch.sig] at hret
    obtain ⟨-, hdetached, hextAad, -, hfit⟩ := hsigned.lengths
    have hmsgFit : lenFitsWord32 input.bytes.length = true := by
      have hle := hsigned.message_le
      rw [← hinput] at hle
      unfold lenFitsWord32 at *
      rw [decide_eq_true_eq] at *
      omega
    rw [signVerify_eq hmsgFit hdetached hextAad hscratch.fits, hret]
    rfl
  · intro i verifyArgs verifyOut hi hargs hok
    have hpair : signVerify verifyArgs i verifyOut = (.ok (), (signVerify verifyArgs i verifyOut).2) :=
      Prod.ext hok rfl
    obtain ⟨key, input', msg, -, hinput', hdec, -⟩ := signVerify_ok hpair
    rw [hargs] at hinput'
    obtain rfl := Option.some.inj hinput'
    have := hsigned.index_lt hinput hdec
    omega

end

section Instances

attribute [local instance] defaultSettings

section Ed25519

attribute [local instance] signCrypt

/-- Two signers with keys of Ed25519, which name the algorithm differently. -/
def ed25519Signers : List Signer :=
  [⟨algEd25519, some (.ofEd25519 ed25519Secret true), .mem [7]⟩,
    ⟨algEddsa, some (.ofEd25519 otherEd25519Secret true), .null 0⟩]

/-- The payload "hi", attached, with buffers that are long enough for both signatures. -/
def ed25519SignersArgs : SignArgs where
  payload := .mem [0x68, 0x69]
  detached := .null 0
  extAad := .null 0
  scratch := some (.ofBytes (List.replicate 64 0))
  out := some (.ofBytes (List.replicate 192 0))
  hasOutLen := true
  rng := some ()

/-- A key of Ed25519 without algorithm has a public key for each of the signers. -/
theorem ed25519Signer_accepted {signer : Signer} {secret publicKey : Bytes} {key : Key}
    (halg : signer.algId = algEd25519 ∨ signer.algId = algEddsa)
    (hsigner : signer.key = some (.ofEd25519 secret true)) (hkey : signer.key = some key)
    (hpair : ∃ a ∈ [signAnswer, otherSignAnswer], a.secret = secret ∧ a.publicKey = publicKey) :
  (Key.ofEd25519 publicKey false).Matches signer.algId
    ∧ key.HasPublic (ed25519Pub [signAnswer, otherSignAnswer]) signer.algId (.ofEd25519 publicKey false)
  := by
  obtain rfl := Option.some.inj (hsigner.symm.trans hkey)
  constructor
  · rcases halg with halg | halg <;> rw [halg] <;> exact .ed25519 (by decide) rfl rfl rfl rfl rfl rfl
  · exact .ed25519 hpair

set_option maxRecDepth 4000 in
/-- The signatures of both signers are verified, each at its own index with its own public key. -/
theorem sign_sign_verify_instance :
  ∃ (bytes : Bytes) (outLen : Nat) (first second : SignatureEntry),
    (signSign (some ed25519Signers) ed25519SignersArgs ()).out = some bytes
    ∧ (signSign (some ed25519Signers) ed25519SignersArgs ()).outLen = some outLen
    ∧ [first.signer, second.signer] = ed25519Signers
    ∧ bytes.take outLen = signFields ed25519SignersArgs 2 ++ (first.bytes ++ second.bytes)
    ∧ ∀ input, input.bytes = bytes.take outLen →
      (∀ scratch hdr payload payloadLen,
        SufficientScratch scratch (ed25519SignersArgs.structureOf first.protectedHdr) first.sig →
        signVerify ⟨some (.ofEd25519 ed25519Public false), some input, .null 0, .null 0, some scratch⟩ 0
            ⟨some hdr, some payload, some payloadLen⟩
          = (.ok (), .verified (first.hdr ed25519SignersArgs) (some [0x68, 0x69])))
      ∧ (∀ scratch hdr payload payloadLen,
        SufficientScratch scratch (ed25519SignersArgs.structureOf second.protectedHdr) second.sig →
        signVerify ⟨some (.ofEd25519 otherEd25519Public false), some input, .null 0, .null 0, some scratch⟩ 1
            ⟨some hdr, some payload, some payloadLen⟩
          = (.ok (), .verified (second.hdr ed25519SignersArgs) (some [0x68, 0x69])))
      ∧ ∀ i verifyArgs out, 2 ≤ i → verifyArgs.input = some input → (signVerify verifyArgs i out).1 ≠ .ok ()
  := by
  have hscheme := correctScheme_ed25519Pub [signAnswer, otherSignAnswer] (by decide)
  have hret : (signSign (some ed25519Signers) ed25519SignersArgs ()).ret = .ok () := by rfl
  have hlocal : ∀ signer ∈ ed25519Signers, ∀ key, signer.key = some key → key.delegated = false := by
    simp only [ed25519Signers, List.forall_mem_cons]
    exact ⟨by rintro _ ⟨⟩; rfl, by rintro _ ⟨⟩; rfl, List.forall_mem_nil _⟩
  obtain ⟨bytes, outLen, entries, hout, houtLen, hsigners, hbytes, hverify⟩ :=
    sign_sign_verify hscheme hret fun signer hsigner key hkey hdelegated =>
      absurd hdelegated (Bool.eq_false_iff.mp (hlocal signer hsigner key hkey))
  obtain ⟨first, _, rfl, hfirst, hrest⟩ := List.map_eq_cons_iff.mp hsigners
  obtain ⟨second, _, rfl, hsecond, hnil⟩ := List.map_eq_cons_iff.mp hrest
  obtain rfl := List.map_eq_nil_iff.mp hnil
  rw [List.flatMap_cons, List.flatMap_singleton] at hbytes
  refine ⟨bytes, outLen, first, second, hout, houtLen, hsigners, hbytes, ?_⟩
  intro input hinput
  obtain ⟨hentries, hbeyond⟩ := hverify input hinput
  refine ⟨?_, ?_, hbeyond⟩
  · intro scratch hdr payload payloadLen hscratch
    obtain ⟨key, _, hmade, haccepts⟩ := hentries 0 first rfl
    obtain ⟨hmatch, hpublic⟩ := ed25519Signer_accepted (.inl (congrArg Signer.algId hfirst))
      (congrArg Signer.key hfirst) hmade.key_eq ⟨signAnswer, List.mem_cons_self, rfl, rfl⟩
    exact (haccepts _ scratch hmatch (.inl rfl) hpublic hscratch).2 hdr payload payloadLen
  · intro scratch hdr payload payloadLen hscratch
    obtain ⟨key, _, hmade, haccepts⟩ := hentries 1 second rfl
    obtain ⟨hmatch, hpublic⟩ := ed25519Signer_accepted (.inr (congrArg Signer.algId hsecond))
      (congrArg Signer.key hsecond) hmade.key_eq ⟨otherSignAnswer, List.mem_cons_of_mem _ List.mem_cons_self, rfl, rfl⟩
    exact (haccepts _ scratch hmatch (.inl rfl) hpublic hscratch).2 hdr payload payloadLen

end Ed25519

section Lms

attribute [local instance] lmsCallbackCrypt

/-- The delegated signer without a kid. -/
def longSigners : List Signer := [⟨algHssLms, some lmsSigner, .null 0⟩]

/-- The delegated signer signs a payload of any length for which there is room. -/
theorem signSign_longSigners {data : Bytes} {buf : Buffer} (hbuf : buf.bytes.length ≤ 0xFFFFFFFF)
    (hroom : data.length + 64 ≤ buf.bytes.length) :
  (signSign (some longSigners) (lmsSignArgs data buf) ()).ret = .ok ()
  := by
  obtain ⟨prot, hprot⟩ : ∃ prot, algProtectedHdr algHssLms = .ok prot := ⟨_, rfl⟩
  have hprotLen : prot.length = 4 := by
    rw [← Except.ok.inj hprot]
    rfl
  have hhead := cborHeadSize_le data.length
  rw [if_pos (by omega)] at hhead
  have hmax : sizeMax = 2 ^ 64 - 1 := rfl
  have htbsLen : ((lmsSignArgs data buf).structureOf prot).length ≤ data.length + 24 := by
    rw [SignArgs.structureOf, length_sigStructure, length_stringBytes, length_stringBytes, length_stringBytes,
      length_stringBytes, hprotLen]
    change 11 + 1 + 5 + 1 + (cborHeadSize data.length + data.length) ≤ _
    omega
  have hpayload : payloadBytes (lmsSignArgs data buf) = stringBytes .bstr data := rfl
  have hfields : (signFields (lmsSignArgs data buf) 1).length ≤ data.length + 16 := by
    simp only [signFields, List.length_append, hpayload, length_stringBytes]
    change 2 + (1 + (1 + (1 + ((cborHeadSize data.length + data.length) + 1)))) ≤ _
    omega
  have hadd {total add : Nat} (h : total + add ≤ sizeMax) : sizeAdd total add = .ok (total + add) := by
    rw [sizeAdd_eq_ok]
    omega
  have hneeded : signEncodedSize longSigners data.length false
      = .ok (15 + (cborHeadSize data.length + data.length)) := by
    have hdata : sizeAddString 5 data.length = _ := sizeAddString_of_le (by omega)
    have hone : cborHeadSize 1 = 1 := rfl
    have hfour : cborHeadSize 4 = 1 := rfl
    generalize hd : cborHeadSize data.length + data.length = size at hdata ⊢
    simp only [signEncodedSize, longSigners, List.foldlM_cons, List.foldlM_nil, sizeAddSigner, bind_eq_ok, lift_eq_ok,
      pure_eq_ok]
    refine ⟨5, rfl, 5 + size, hdata, 2, rfl, 5 + size + 1, hadd (by omega), 15 + size, ⟨prot, hprot, 1, rfl,
      5 + size + 2, hadd (by omega), 5 + size + 7, ?_, 5 + size + 8, ?_, ?_⟩, rfl⟩
    · rw [hprotLen, sizeAddString_of_le (by omega), hfour]
    · change (sizeAdd (5 + size + 7) 1 >>= pure) = _
      rw [hadd (by omega)]
      rfl
    · rw [sizeAddString_of_le (by omega), hone, Except.ok.injEq]
      omega
  have htbs : signerTbs (lmsSignArgs data buf) buf prot = .ok ((lmsSignArgs data buf).structureOf prot) := by
    rw [signerTbs, lift_eq_ok, buildToBeSignedMaced_eq_ok]
    exact ⟨rfl, isUtf8_ctx (List.mem_cons_of_mem _ (List.mem_cons_self ..)), fun _ => rfl, fun _ => rfl,
      Pointer.valid_mem _, ⟨buf, rfl, by omega⟩, rfl⟩
  have hscratch : signerScratchCheck (lmsSignArgs data buf) buf ⟨algHssLms, some lmsSigner, .null 0⟩ = .ok () := by
    simp only [signerScratchCheck, bind_eq_ok, lift_eq_ok]
    refine ⟨prot, hprot, _, htbs, 1, rfl, ?_⟩
    rw [if_neg fun h => Bool.noConfusion h.2.1]
    simp only [bind_eq_ok, lift_eq_ok, failWhen_eq_ok]
    refine ⟨true, rfl, ((lmsSignArgs data buf).structureOf prot).length + 1, ?_, ?_⟩
    · rw [if_pos rfl]
      apply hadd
      omega
    · omega
  have hprep : signPrepare longSigners (lmsSignArgs data buf) buf buf = .ok () := by
    have hfits (n : Nat) (h : n ≤ 0xFFFFFFFF) : lenFitsWord32 n = true := decide_eq_true h
    simp only [signPrepare, bind_eq_ok, failWhen_eq_ok, forM_eq_ok]
    refine ⟨(), ?_, (), ?_, (), ?_, (), ?_, (), ?_, ?_⟩
    · rintro (h | h | h) <;> cases h
    · rintro ⟨-, h⟩
      cases h
    · rw [Decidable.not_not]
      exact ⟨hfits _ (by simp only [lmsSignArgs, Pointer.len]; omega), rfl, rfl, hfits _ hbuf, hfits _ hbuf⟩
    · rintro ⟨-, h⟩
      cases h
    · rintro signer hsigner
      rw [List.mem_singleton.mp hsigner]
      rfl
    rw [if_pos (by decide)]
    simp only [signPreflight, bind_eq_ok, failWhen_eq_ok]
    refine ⟨(), by decide, ?_⟩
    rw [if_pos (by decide)]
    simp only [bind_eq_ok, failWhen_eq_ok, forM_eq_ok]
    refine ⟨_, hneeded, (), by omega, ?_⟩
    intro signer hsigner
    rw [List.mem_singleton.mp hsigner]
    exact hscratch
  generalize htbsEq : (lmsSignArgs data buf).structureOf prot = tbs at htbs htbsLen
  have hsig : Runs (signSignTbs lmsSigner algHssLms none tbs buf.bytes.length none) ⟨(), []⟩
      [UInt8.ofNat tbs.length]
      ⟨(), [.signCb lmsSigner algHssLms (lmsCall tbs) (some ([UInt8.ofNat tbs.length], 1))]⟩ := by
    rw [signSignTbs, if_pos (by decide)]
    apply runs_signDelegated_lmsSigner
    omega
  have hbody : encodeAt (encodeSignBody (lmsSignArgs data buf) 1) (.init buf)
      = .ok ((EncCtx.init buf).put (signFields (lmsSignArgs data buf) 1)) := by
    apply encodeAt_of_fits (emits_encodeSignBody rfl)
    change 0 + (signFields (lmsSignArgs data buf) 1).length ≤ buf.bytes.length
    omega
  have hentry : (signatureBytes prot (.null 0) [UInt8.ofNat tbs.length]).length = 9 := by
    simp only [signatureBytes, List.length_append, length_stringBytes, hprotLen]
    rfl
  have hret : ∃ ctx s, Runs (signSignMessage longSigners (lmsSignArgs data buf) buf buf) ⟨(), []⟩ ctx s := by
    simp only [signSignMessage, longSigners, List.foldlM_cons, List.foldlM_nil, signOne, runs_bind, runs_check,
      runs_pure, lift_eq_ok]
    refine ⟨_, _, (), _, ⟨hprep, rfl⟩, _, _, ⟨hbody, rfl⟩, _, _, ⟨none, _, ⟨rfl, rfl⟩, prot, _, ⟨hprot, rfl⟩, tbs, _,
      ⟨htbs, rfl⟩, none, _, ⟨rfl, rfl⟩, _, _, hsig, encodeAt_of_fits (emits_encodeSignature _ _ _) ?_, rfl⟩, rfl, rfl⟩
    rw [EncCtx.idx_put, EncCtx.bufSz_put]
    change 0 + (signFields (lmsSignArgs data buf) 1).length
      + (signatureBytes prot (.null 0) [UInt8.ofNat tbs.length]).length ≤ buf.bytes.length
    omega
  obtain ⟨ctx, s, hruns⟩ := hret
  change (signFinish _ (signSignMessage longSigners (lmsSignArgs data buf) buf buf) _).ret = _
  rw [signFinish, hruns]

/-- The signature of a delegated signer over a longer structure is not verified. -/
theorem sign_sign_verify_long_payload :
  CorrectScheme lmsPub ∧ lmsVerifier.Matches algHssLms ∧ lmsVerifier.alg = algUnset
    ∧ lmsSigner.HasPublic lmsPub algHssLms lmsVerifier
    ∧ (signSign (some longSigners) (lmsSignArgs longPayload longBuffer) ()).ret = .ok ()
    ∧ ∃ (bytes : Bytes) (outLen : Nat) (entry : SignatureEntry),
      (signSign (some longSigners) (lmsSignArgs longPayload longBuffer) ()).out = some bytes
      ∧ (signSign (some longSigners) (lmsSignArgs longPayload longBuffer) ()).outLen = some outLen
      ∧ [entry.signer] = longSigners
      ∧ SufficientScratch longBuffer ((lmsSignArgs longPayload longBuffer).structureOf entry.protectedHdr) entry.sig
      ∧ bytes.take outLen = signFields (lmsSignArgs longPayload longBuffer) 1 ++ entry.bytes
      ∧ (signVerify ⟨some lmsVerifier, some (.ofBytes (bytes.take outLen)), .null 0, .null 0, some longBuffer⟩ 0
          ⟨some .zero, some none, some 0⟩).1 = .error (.err .invalidArg)
  := by
  have hlong : longPayload.length = 2 ^ 31 := List.length_replicate
  have hbuf := length_longBuffer
  have hret : (signSign (some longSigners) (lmsSignArgs longPayload longBuffer) ()).ret = _ :=
    signSign_longSigners (by omega) (by omega)
  refine ⟨correctScheme_lmsPub, matches_lmsVerifier, rfl, ?_, hret, ?_⟩
  · intro cb _
    apply callbackSigns_lmsSigner
  obtain ⟨_, scratch, out, bytes, outLen, entries, hsigners, hout, houtLen, hsigned⟩ := signSign_ok hret
  obtain rfl := Option.some.inj hsigners
  obtain ⟨entry, rfl⟩ : ∃ entry, entries = [entry] := List.length_eq_one_iff.mp hsigned.length_entries
  obtain ⟨key, hmade⟩ := hsigned.made entry (List.mem_singleton_self entry)
  have halg : entry.signer.algId = algHssLms := by
    have hsigner := hsigned.signers_eq
    rw [List.map_singleton, longSigners, List.singleton_inj] at hsigner
    rw [hsigner]
  have htbsLong : intMax < ((lmsSignArgs longPayload longBuffer).structureOf entry.protectedHdr).length := by
    have hpayload : (stringBytes .bstr longPayload).length = cborHeadSize longPayload.length + longPayload.length :=
      length_stringBytes _ _
    have hmax : intMax = 2 ^ 31 - 1 := rfl
    rw [SignArgs.structureOf, length_sigStructure]
    change _ < _ + (stringBytes .bstr longPayload).length
    omega
  obtain ⟨-, -, -, hscratchFit, houtFit⟩ := hsigned.lengths
  have hmessage := hsigned.message_eq
  have hle := hsigned.message_le
  have hroom := hmade.room
  rw [lenFitsWord32, decide_eq_true_eq] at hscratchFit houtFit
  rw [List.flatMap_singleton] at hmessage
  have hsigLe : entry.sig.length ≤ (bytes.take outLen).length := by
    rw [hmessage]
    simp only [SignatureEntry.bytes, signatureBytes, List.length_append, length_stringBytes]
    omega
  have hinput : (Buffer.ofBytes (bytes.take outLen)).bytes = bytes.take outLen := by
    apply Buffer.bytes_ofBytes
    have hmax : sizeMax = 2 ^ 64 - 1 := rfl
    omega
  have hfits (n : Nat) (h : n ≤ 0xFFFFFFFF) : lenFitsWord32 n = true := decide_eq_true h
  refine ⟨bytes, outLen, entry, hout, houtLen, hsigned.signers_eq, ⟨hfits _ (by omega), by omega, by omega⟩,
    hmessage, ?_⟩
  have hverify : signVerifyMessage lmsVerifier 0 (.ofBytes (bytes.take outLen)) (.null 0) (.null 0) longBuffer = _ :=
    hsigned.verify hinput rfl (by rw [halg]; decide) (.inl rfl) (by omega)
  have hlms : signVerifyTbs lmsVerifier algHssLms
      ((lmsSignArgs longPayload longBuffer).structureOf entry.protectedHdr) entry.sig longBuffer.bytes.length = _ :=
    verifyLms_lmsVerifier htbsLong
  rw [halg, hlms] at hverify
  rw [signVerify_eq (hfits _ (by rw [hinput]; omega)) rfl rfl (hfits _ (by omega)), hverify]
  rfl

end Lms

end Instances

end WolfCose
