import Teamspeak.Client.Handshake
import Teamspeak.Lib.Heap

/-!
# Session keys and their cache

`getKeyNonce` and `setSharedSecret` of `crypt.ts`.  The key and nonce of a direction,
packet type and generation are derived once and kept until the IV changes; the id of a
packet is mixed into a copy of the key.  Byte arrays are objects, since the cache holds the
ones it made and hands its nonces out, so that an id mixed into a cached key would stay
there.  `sha256` is node's.

* `cacheKey_inj`: the cache keeps the directions, types and generations apart.
* `Cached`: what the cache holds is what would be derived.
* `run_refines`: a `KeyCache` gives out what an IV alone determines, and what it gave out
  stays as it was.
-/

namespace Teamspeak.Client

open Transport (Crypt Cipher)

/-! ### Derivation -/

def packetTypeMask : Nat := 0x0f

/-- `c:\windows\syste` in ASCII. -/
def dummyKey : Bytes := asciiBytes (.of "c:\\windows\\syste")

/-- `m\firewall32.cpl` in ASCII. -/
def dummyNonce : Bytes := asciiBytes (.of "m\\firewall32.cpl")

/-- What the key and nonce of an IV are hashed from. -/
def toHash (iv : Bytes) (fromServer : Bool) (packetType generationID : Nat) : Bytes :=
  [if fromServer then 0x30 else 0x31, UInt8.ofNat (packetType &&& packetTypeMask)] ++
    uint32BE generationID ++ iv

/-- The low 16 bits of a packet id mixed into the first two bytes of a key. -/
def mixID (packetID : Nat) (key : Bytes) : Bytes :=
  let key := key.set 0 ((key.getD 0 0) ^^^ UInt8.ofNat ((packetID >>> 8) &&& 0xff))
  key.set 1 ((key.getD 1 0) ^^^ UInt8.ofNat (packetID &&& 0xff))

/-- A fresh derivation of the key and nonce of a packet. -/
def deriveKeyNonce (sha256 : Bytes → Bytes) (iv : Bytes) (fromServer : Bool)
    (packetID generationID packetType : Nat) : Bytes × Bytes :=
  let hash := sha256 (toHash iv fromServer packetType generationID)
  (mixID packetID (hash.take 16), (hash.drop 16).take 16)

/-! ### The cache -/

structure KeyNonce where
  key : Ref Bytes
  nonce : Ref Bytes
  gen : Nat

/-- `makeCacheKey`. -/
def makeCacheKey (fromServer : Bool) (packetType generationID : Nat) : Nat :=
  ((if fromServer then 1 <<< 40 else 0) ||| ((packetType &&& packetTypeMask) <<< 32)) |||
    generationID

/-- A connection's encryption state with its cached keys, and the arrays it has made. -/
structure KeyCache extends Crypt where
  cachedKeys : InsertionMap Nat KeyNonce := .empty
  arrays : Heap Bytes := {}

namespace KeyCache

/-- `setSharedSecret`, which changes nothing where it throws. -/
def setSharedSecret (C : Cipher) (s : KeyCache) (alpha beta sharedKey : Bytes) : KeyCache :=
  match s.toCrypt.setSharedSecret C alpha beta sharedKey with
  | none => s
  | some crypt => { s with toCrypt := crypt, cachedKeys := .empty }

/-- The cached key and nonce of a direction, type and generation, derived where there is
none. -/
def lookUp (sha256 : Bytes → Bytes) (s : KeyCache) (fromServer : Bool)
    (generationID packetType : Nat) : KeyNonce × KeyCache :=
  let cacheKey := makeCacheKey fromServer packetType generationID
  match s.cachedKeys.get? cacheKey with
  | some kn => (kn, s)
  | none =>
    let hash := sha256 (toHash s.ivStruct fromServer packetType generationID)
    let key := s.arrays.alloc (hash.take 16)
    let nonce := key.1.alloc ((hash.drop 16).take 16)
    let kn := { key := key.2, nonce := nonce.2, gen := generationID }
    (kn, { s with cachedKeys := s.cachedKeys.set cacheKey kn, arrays := nonce.1 })

/-- `getKeyNonce`: `none` where it throws. -/
def getKeyNonce (sha256 : Bytes → Bytes) (s : KeyCache) (fromServer : Bool)
    (packetID generationID packetType : Nat) (dummy : Bool) :
    Option (Ref Bytes × Ref Bytes) × KeyCache :=
  if dummy then
    let key := s.arrays.alloc dummyKey
    let nonce := key.1.alloc dummyNonce
    (some (key.2, nonce.2), { s with arrays := nonce.1 })
  else if s.cryptoInitComplete = false then (none, s)
  else
    let found := s.lookUp sha256 fromServer generationID packetType
    let kn := found.1
    let s := found.2
    -- the copy, and what is mixed into it
    let key := s.arrays.alloc ((s.arrays.read kn.key).getD [])
    let arrays := key.1.write key.2 (mixID packetID ((key.1.read key.2).getD []))
    (some (key.2, kn.nonce), { s with arrays })

end KeyCache

/-- What is asked of a `Crypt`. -/
inductive KeyCall
  | setSharedSecret (alpha beta sharedKey : Bytes)
  | getKeyNonce (fromServer : Bool) (packetID generationID packetType : Nat) (dummy : Bool)

/-- A generation is what `setUint32` and the cache key have room for. -/
def KeyCall.fits : KeyCall → Bool
  | .setSharedSecret _ _ _ => true
  | .getKeyNonce _ _ generationID _ _ => generationID < 2 ^ 32

/-- A `KeyCache`, and what it has given out: an array for the key and one for the nonce, or
`none` for a call that threw. -/
structure KeyRun where
  cache : KeyCache := {}
  given : List (Option (Ref Bytes × Ref Bytes)) := []

def KeyRun.step (C : Cipher) (sha256 : Bytes → Bytes) (s : KeyRun) : KeyCall → KeyRun
  | .setSharedSecret alpha beta sharedKey =>
    { s with cache := s.cache.setSharedSecret C alpha beta sharedKey }
  | .getKeyNonce fromServer packetID generationID packetType dummy =>
    let got := s.cache.getKeyNonce sha256 fromServer packetID generationID packetType dummy
    { cache := got.2, given := s.given ++ [got.1] }

/-- What the arrays given out hold. -/
def KeyRun.read (s : KeyRun) : List (Option (Bytes × Bytes)) :=
  s.given.map fun given => given.map fun (key, nonce) =>
    ((s.cache.arrays.read key).getD [], (s.cache.arrays.read nonce).getD [])

/-! ### Without a cache -/

/-- An IV, and the keys and nonces derived afresh from it. -/
structure DerivedRun where
  crypt : Crypt := {}
  given : List (Option (Bytes × Bytes)) := []

def DerivedRun.step (C : Cipher) (sha256 : Bytes → Bytes) (s : DerivedRun) : KeyCall → DerivedRun
  | .setSharedSecret alpha beta sharedKey =>
    { s with crypt := (s.crypt.setSharedSecret C alpha beta sharedKey).getD s.crypt }
  | .getKeyNonce fromServer packetID generationID packetType dummy =>
    { s with
      given := s.given ++
        [if dummy then some (dummyKey, dummyNonce)
          else if s.crypt.cryptoInitComplete = false then none
          else some (deriveKeyNonce sha256 s.crypt.ivStruct fromServer packetID generationID
            packetType)] }

/-! ### The cache keys -/

theorem and_packetTypeMask_lt (packetType : Nat) : packetType &&& packetTypeMask < 16 :=
  Nat.lt_of_le_of_lt Nat.and_le_right (by decide)

theorem makeCacheKey_eq (fromServer : Bool) (packetType : Nat) {generationID : Nat}
    (h : generationID < 2 ^ 32) :
    makeCacheKey fromServer packetType generationID =
      (if fromServer then 2 ^ 40 else 0) + (packetType &&& packetTypeMask) * 2 ^ 32 +
        generationID := by
  have htype := and_packetTypeMask_lt packetType
  have hhigh : ((if fromServer then 1 <<< 40 else 0) |||
      ((packetType &&& packetTypeMask) <<< 32)) =
      ((if fromServer then 256 else 0) + (packetType &&& packetTypeMask)) <<< 32 := by
    cases fromServer with
    | false => rw [if_neg Bool.false_ne_true, if_neg Bool.false_ne_true, Nat.zero_or, Nat.zero_add]
    | true =>
      rw [if_pos rfl, if_pos rfl, show 1 <<< 40 = 256 <<< 32 by decide, ← Nat.shiftLeft_or_distrib,
        show (256 : Nat) = 1 <<< 8 by decide,
        ← Nat.shiftLeft_add_eq_or_of_lt (by omega : packetType &&& packetTypeMask < 2 ^ 8)]
  rw [makeCacheKey, hhigh, ← Nat.shiftLeft_add_eq_or_of_lt h, Nat.shiftLeft_eq, Nat.add_mul]
  cases fromServer with
  | false => rfl
  | true => rfl

/-- **The cache keeps directions, types and generations apart.** -/
theorem cacheKey_inj {fromServer fromServer' : Bool} {packetType packetType' : Nat}
    {gen gen' : Nat} (hgen : gen < 2 ^ 32) (hgen' : gen' < 2 ^ 32)
    (h : makeCacheKey fromServer packetType gen = makeCacheKey fromServer' packetType' gen') :
    fromServer = fromServer' ∧ packetType &&& packetTypeMask = packetType' &&& packetTypeMask ∧
      gen = gen' := by
  have htype := and_packetTypeMask_lt packetType
  have htype' := and_packetTypeMask_lt packetType'
  rw [makeCacheKey_eq _ _ hgen, makeCacheKey_eq _ _ hgen'] at h
  cases fromServer with
  | false =>
    cases fromServer' with
    | false =>
      simp only [Bool.false_eq_true, if_false] at h
      exact ⟨rfl, by omega, by omega⟩
    | true =>
      simp only [Bool.false_eq_true, if_false, if_true] at h
      omega
  | true =>
    cases fromServer' with
    | false =>
      simp only [Bool.false_eq_true, if_false, if_true] at h
      omega
    | true =>
      simp only [if_true] at h
      exact ⟨rfl, by omega, by omega⟩

/-! ### What the cache holds -/

/-- What the cache holds is what would be derived. -/
def Cached (sha256 : Bytes → Bytes) (s : KeyCache) : Prop :=
  ∀ fromServer packetType gen kn, gen < 2 ^ 32 →
    s.cachedKeys.get? (makeCacheKey fromServer packetType gen) = some kn →
    s.arrays.read kn.key = some ((sha256 (toHash s.ivStruct fromServer packetType gen)).take 16) ∧
      s.arrays.read kn.nonce =
        some (((sha256 (toHash s.ivStruct fromServer packetType gen)).drop 16).take 16)

/-- What is hashed depends on the cache key alone. -/
theorem toHash_eq {fromServer fromServer' : Bool} {packetType packetType' gen gen' : Nat}
    (hgen : gen < 2 ^ 32) (hgen' : gen' < 2 ^ 32)
    (h : makeCacheKey fromServer packetType gen = makeCacheKey fromServer' packetType' gen')
    (iv : Bytes) :
    toHash iv fromServer packetType gen = toHash iv fromServer' packetType' gen' := by
  obtain ⟨rfl, htype, rfl⟩ := cacheKey_inj hgen hgen' h
  rw [toHash, toHash, htype]

/-- What is cached stays what would be derived while arrays are made. -/
theorem Cached.keeps {sha256 : Bytes → Bytes} {s : KeyCache} (h : Cached sha256 s)
    {arrays : Heap Bytes} (hkeeps : s.arrays.Keeps arrays) :
    Cached sha256 { s with arrays } := by
  intro fromServer packetType gen kn hgen hget
  obtain ⟨hkey, hnonce⟩ := h fromServer packetType gen kn hgen hget
  exact ⟨hkeeps _ _ hkey, hkeeps _ _ hnonce⟩

/-- A copy that is written to leaves the arrays there were. -/
theorem keeps_copy (arrays : Heap Bytes) (a b : Bytes) :
    arrays.Keeps ((arrays.alloc a).1.write (arrays.alloc a).2 b) := by
  intro r c hr
  exact Heap.keepsBut_write _ _ b r c (Heap.ne_alloc hr a).symm (Heap.keeps_alloc _ a r c hr)

/-- What is found is there, and is what would be derived. -/
theorem lookUp_spec {sha256 : Bytes → Bytes} {s : KeyCache} (h : Cached sha256 s)
    (fromServer : Bool) {gen : Nat} (hgen : gen < 2 ^ 32) (packetType : Nat) :
    (s.lookUp sha256 fromServer gen packetType).2.toCrypt = s.toCrypt ∧
      s.arrays.Keeps (s.lookUp sha256 fromServer gen packetType).2.arrays ∧
      Cached sha256 (s.lookUp sha256 fromServer gen packetType).2 ∧
      (s.lookUp sha256 fromServer gen packetType).2.arrays.read
          (s.lookUp sha256 fromServer gen packetType).1.key =
        some ((sha256 (toHash s.ivStruct fromServer packetType gen)).take 16) ∧
      (s.lookUp sha256 fromServer gen packetType).2.arrays.read
          (s.lookUp sha256 fromServer gen packetType).1.nonce =
        some (((sha256 (toHash s.ivStruct fromServer packetType gen)).drop 16).take 16) := by
  rw [KeyCache.lookUp]
  dsimp only
  split
  · rename_i kn hget
    obtain ⟨hkey, hnonce⟩ := h fromServer packetType gen kn hgen hget
    exact ⟨rfl, .refl _, h, hkey, hnonce⟩
  · rename_i hget
    have hkeeps := (Heap.keeps_alloc s.arrays
      ((sha256 (toHash s.ivStruct fromServer packetType gen)).take 16)).trans
      (Heap.keeps_alloc _ (((sha256 (toHash s.ivStruct fromServer packetType gen)).drop 16).take 16))
    have hkey := Heap.keeps_alloc _
      (((sha256 (toHash s.ivStruct fromServer packetType gen)).drop 16).take 16) _ _
      (Heap.read_alloc s.arrays ((sha256 (toHash s.ivStruct fromServer packetType gen)).take 16))
    refine ⟨rfl, hkeeps, ?_, hkey, Heap.read_alloc _ _⟩
    intro fromServer' packetType' gen' kn' hgen' hget'
    rw [InsertionMap.get?_set] at hget'
    split at hget'
    · rename_i heq
      cases hget'
      rw [← toHash_eq hgen hgen' heq]
      exact ⟨hkey, Heap.read_alloc _ _⟩
    · exact h.keeps hkeeps fromServer' packetType' gen' kn' hgen' hget'

/-! ### The refinement -/

/-- The arrays given out hold the key and nonce. -/
def Holds (arrays : Heap Bytes) : Option (Ref Bytes × Ref Bytes) → Option (Bytes × Bytes) → Prop
  | none, none => True
  | some (key, nonce), some (k, n) => arrays.read key = some k ∧ arrays.read nonce = some n
  | _, _ => False

theorem Holds.keeps {arrays arrays' : Heap Bytes} (h : arrays.Keeps arrays')
    {given : Option (Ref Bytes × Ref Bytes)} {derived : Option (Bytes × Bytes)}
    (hholds : Holds arrays given derived) : Holds arrays' given derived := by
  cases given with
  | none =>
    cases derived with
    | none => trivial
    | some _ => exact hholds
  | some given =>
    cases derived with
    | none => exact hholds
    | some derived => exact ⟨h _ _ hholds.1, h _ _ hholds.2⟩

structure Refines (sha256 : Bytes → Bytes) (s : KeyRun) (d : DerivedRun) : Prop where
  crypt : s.cache.toCrypt = d.crypt
  cached : Cached sha256 s.cache
  given : List.Forall₂ (Holds s.cache.arrays) s.given d.given

theorem Refines.step {C : Cipher} {sha256 : Bytes → Bytes} {s : KeyRun} {d : DerivedRun}
    (h : Refines sha256 s d) {call : KeyCall} (hfits : call.fits = true) :
    Refines sha256 (s.step C sha256 call) (d.step C sha256 call) := by
  cases call with
  | setSharedSecret alpha beta sharedKey =>
    rw [KeyRun.step, DerivedRun.step, KeyCache.setSharedSecret, h.crypt]
    cases d.crypt.setSharedSecret C alpha beta sharedKey with
    | none => exact h
    | some crypt =>
      refine ⟨rfl, ?_, h.given⟩
      intro fromServer packetType gen kn _ hget
      cases hget
  | getKeyNonce fromServer packetID generationID packetType dummy =>
    have hgen : generationID < 2 ^ 32 := of_decide_eq_true hfits
    -- What is given out now comes after what was, which stays as it is.
    have hstep : ∀ {arrays : Heap Bytes} {given derived}, s.cache.arrays.Keeps arrays →
        Holds arrays given derived →
        List.Forall₂ (Holds arrays) (s.given ++ [given]) (d.given ++ [derived]) :=
      fun hkeeps hholds =>
        List.rel_append (h.given.imp fun _ _ => .keeps hkeeps) (.cons hholds .nil)
    rw [KeyRun.step, DerivedRun.step, KeyCache.getKeyNonce, ← h.crypt]
    dsimp only
    split
    · have hkeeps := (Heap.keeps_alloc s.cache.arrays dummyKey).trans
        (Heap.keeps_alloc _ dummyNonce)
      exact ⟨rfl, h.cached.keeps hkeeps, hstep hkeeps
        ⟨Heap.keeps_alloc _ dummyNonce _ _ (Heap.read_alloc _ _), Heap.read_alloc _ _⟩⟩
    split
    · exact ⟨rfl, h.cached, hstep (.refl _) trivial⟩
    · obtain ⟨hcrypt, hkeeps, hcached, hkey, hnonce⟩ :=
        lookUp_spec h.cached fromServer hgen packetType
      rw [hkey, Option.getD_some, Heap.read_alloc, Option.getD_some]
      have hcopy := keeps_copy (s.cache.lookUp sha256 fromServer generationID packetType).2.arrays
        ((sha256 (toHash s.cache.ivStruct fromServer packetType generationID)).take 16)
        (mixID packetID
          ((sha256 (toHash s.cache.ivStruct fromServer packetType generationID)).take 16))
      exact ⟨hcrypt, hcached.keeps hcopy, hstep (hkeeps.trans hcopy)
        ⟨Heap.read_write (Heap.read_alloc _ _) _, hcopy _ _ hnonce⟩⟩

/-- **The cache is transparent**: whatever is asked in whatever order, what a `KeyCache` has
given out is what is derived afresh from the IV there was, with the packet's id mixed into
the key, and nothing before there is one. -/
theorem run_refines (C : Cipher) (sha256 : Bytes → Bytes) {calls : List KeyCall}
    (hfits : ∀ call ∈ calls, call.fits = true) :
    (calls.foldl (KeyRun.step C sha256) {}).read =
      (calls.foldl (DerivedRun.step C sha256) {}).given := by
  have hrun : Refines sha256 (calls.foldl (KeyRun.step C sha256) {})
      (calls.foldl (DerivedRun.step C sha256) {}) := by
    induction calls using List.reverseRecOn with
    | nil => exact ⟨rfl, nofun, .nil⟩
    | append_singleton calls call ih =>
      rw [List.foldl_concat, List.foldl_concat]
      exact (ih fun c hc => hfits c (List.mem_append_left _ hc)).step
        (hfits call (List.mem_append_right _ List.mem_cons_self))
  have hread := hrun.given
  rw [KeyRun.read]
  generalize (calls.foldl (KeyRun.step C sha256) {}).given = given at hread ⊢
  generalize (calls.foldl (DerivedRun.step C sha256) {}).given = derived at hread ⊢
  induction hread with
  | nil => rfl
  | @cons given derived _ _ hholds _ ih =>
    rw [List.map_cons, ih]
    refine congrArg (· :: _) ?_
    cases given with
    | none =>
      cases derived with
      | none => rfl
      | some _ => exact hholds.elim
    | some given =>
      cases derived with
      | none => exact hholds.elim
      | some derived =>
        rw [Option.map_some]
        show some ((Heap.read _ given.1).getD [], (Heap.read _ given.2).getD []) = _
        rw [hholds.1, hholds.2]
        rfl

/-- Two packets of one generation before and after a secret is set: the second has its own id
in the key. -/
theorem run_refines_packets :
    ([.getKeyNonce true 7 0 2 false,
        .setSharedSecret (List.replicate 10 0) [0] (List.replicate 11 1),
        .getKeyNonce true 7 0 2 false, .getKeyNonce true 258 0 2 false].foldl
      (KeyRun.step Transport.clearCipher fun data => data) {}).read =
      [none,
        some ([0x30, 5, 0, 0, 0, 0, 1, 1, 1, 1, 1, 1, 1, 1, 1, 1], [1]),
        some ([0x31, 0, 0, 0, 0, 0, 1, 1, 1, 1, 1, 1, 1, 1, 1, 1], [1])] :=
  (run_refines Transport.clearCipher (fun data => data) (by decide)).trans (by decide)

end Teamspeak.Client
