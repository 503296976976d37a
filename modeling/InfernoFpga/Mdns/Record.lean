import InfernoFpga.Mdns.Name
import InfernoFpga.Firmware.FlowTable

/-!
# Record — the resource records of the mDNS responder

Every record the device can publish is an `Entry`; `emit` writes one into the message, counts it
in its section and logs it.  Channel and bundle records are synthesised from the flow table when
they are asked for.
-/

namespace InfernoFpga
namespace Mdns

open Lib
open Firmware

/-! ## Constants -/

abbrev mdnsPort : Nat := 5353
abbrev mdnsTtl : Nat := 4500
abbrev mdnsTtlTxt : Nat := 120
abbrev mdnsTtlA : Nat := 120
abbrev dnsTA : Nat := 1
abbrev dnsTPtr : Nat := 12
abbrev dnsTTxt : Nat := 16
abbrev dnsTSrv : Nat := 33
abbrev dnsTAny : Nat := 255
abbrev dnsCIn : Nat := 1
abbrev dnsCInFlush : Nat := 0x8001
abbrev dantePortArc : Nat := 4440
abbrev dantePortCmc : Nat := 8800
abbrev dantePortFlows : Nat := 4455
abbrev danteMaxName : Nat := 32
abbrev mdnsInstMax : Nat := 112
def mdnsSplitBytes : Nat := 900

def mdnsGroup : Ip := ⟨224, 0, 0, 251⟩

/-! ## The device -/

/-- The contents of a name buffer of `g_dante`. -/
abbrev DevName := { s : Str // s.length < danteMaxName ∧ 0 ∉ s }

/-- What the responder reads of `g_dante`. -/
structure DanteDev where
  name : DevName
  hostname : DevName
  deviceId : Vector UInt8 8

/-- `dante_dev_init`: the device id is the MAC in EUI-64 form. -/
def danteDevInit (mac : Mac) : DanteDev :=
  { name := ⟨ascii "N-Series-Switchover", by decide⟩
    hostname := ⟨ascii "N-Series-Switchover", by decide⟩
    deviceId := #v[mac.a, mac.b, mac.c, 0xFF, 0xFE, mac.d, mac.e, mac.f] }

/-- What records are made of: the device, its address, its flows and its latency settings. -/
structure Board where
  dev : DanteDev
  ip : Ip
  tx : Tx
  latencyNs : Nat
  latencyAutoraise : Bool
  fppAdvMax : Nat

/-- `cat2`. -/
def cat2 (max : Nat) (a b : Str) : Str := (a ++ b).take (max - 1)

inductive Svc
  | arc
  | cmc
  | chan
  | bund
  deriving DecidableEq, Repr

/-- The name of a service. -/
def Svc.name : Svc → Str
  | .arc => ascii "_netaudio-arc._udp.local"
  | .cmc => ascii "_netaudio-cmc._udp.local"
  | .chan => ascii "_netaudio-chan._udp.local"
  | .bund => ascii "_netaudio-bund._udp.local"

def nServices : Str := ascii "_services._dns-sd._udp.local"

/-- A channel or bundle instance, by the index its records are built from. -/
inductive Instance
  | chan (ch1 : Nat)
  | bund (id : Nat)
  deriving DecidableEq, Repr

def Instance.idx : Instance → Nat
  | .chan ch1 => ch1
  | .bund id => id

def digit (v : Nat) : UInt8 := UInt8.ofNat (48 + v)

/-- `dante_tx_channel_name`, for a buffer of at least four bytes. -/
def danteTxChannelName (index1 : Nat) : Str :=
  (if 10 ≤ index1 then [digit (index1 / 10 % 10)] else []) ++ [digit (index1 % 10)]

/-- The label `bund_inst` writes. -/
def bundLabel (b1 : Nat) : Str :=
  (if 100 ≤ b1 then [digit (b1 / 100 % 10)] else []) ++
    (if 10 ≤ b1 then [digit (b1 / 10 % 10)] else []) ++ [digit (b1 % 10)]

/-- A decimal number. -/
def decimal (v : Nat) : Str := (Nat.toDigits 10 v).map fun c => UInt8.ofNat c.toNat

namespace Board

variable (b : Board)

def nHost : Str := cat2 (danteMaxName + 8) b.dev.hostname (ascii ".local")

/-- `n_arc_inst` and `n_cmc_inst`. -/
def svcInst (s : Svc) : Str := cat2 (danteMaxName + 48) b.dev.name (dot :: s.name)

/-- `inst_name`: label, `@`, device, dot and service, as far as the buffer goes. -/
def instName (label : Str) (s : Svc) : Str :=
  (label ++ ascii "@" ++ b.dev.name ++ [dot] ++ s.name).take (mdnsInstMax - 1)

def chanInst (ch1 : Nat) : Str := b.instName (danteTxChannelName (ch1 % 2 ^ 16)) .chan

def bundInst (b1 : Nat) : Str := b.instName (bundLabel b1) .bund

def inst : Instance → Str
  | .chan ch1 => b.chanInst ch1
  | .bund id => b.bundInst id

def latency : Nat := danteTxLatencyEffective b.tx b.latencyNs b.latencyAutoraise

/-- The ids of the active multicast flows. -/
def groupIds : List Nat := (danteTxMcastIds b.tx).map BitVec.toNat

end Board

/-- A text of digits, at most three: a label in front of an `@`, or the name of a channel. -/
structure Digits (label : Str) : Prop where
  short : label.length ≤ 3
  noDot : dot ∉ label
  noZero : (0 : UInt8) ∉ label

theorem digit_ne : ∀ v < 10, digit v ≠ dot ∧ digit v ≠ 0 := by decide

theorem digits_label {p q : Prop} [Decidable p] [Decidable q] {x y z : Nat} (hx : x < 10)
    (hy : y < 10) (hz : z < 10) :
    Digits ((if p then [digit x] else []) ++ (if q then [digit y] else []) ++ [digit z]) := by
  have hx' := digit_ne x hx
  have hy' := digit_ne y hy
  have hz' := digit_ne z hz
  constructor <;> split_ifs <;> simp_all [eq_comm]

theorem digits_bundLabel (b1 : Nat) : Digits (bundLabel b1) :=
  digits_label (Nat.mod_lt _ (by decide)) (Nat.mod_lt _ (by decide)) (Nat.mod_lt _ (by decide))

theorem digits_danteTxChannelName (index1 : Nat) : Digits (danteTxChannelName index1) := by
  have hlabel := @digits_label False (10 ≤ index1) _ _ 0 (index1 / 10 % 10) (index1 % 10)
    (by decide) (Nat.mod_lt _ (by decide)) (Nat.mod_lt _ (by decide))
  rwa [if_neg id, List.nil_append] at hlabel

/-! ## TXT records -/

/-- `txt_put`: one length-prefixed string. -/
def txtPut (s : Str) : List UInt8 :=
  let s := s.take 255
  UInt8.ofNat s.length :: s

/-- `txt_put_kv_u`, for a key within its buffer. -/
def txtPutKvU (k : Str) (v : Nat) : List UInt8 := txtPut (k ++ decimal v)

def hexDigit (v : Nat) : UInt8 := if v < 10 then UInt8.ofNat (48 + v) else UInt8.ofNat (87 + v)

def txtPutHexid (deviceId : Vector UInt8 8) : List UInt8 :=
  txtPut (ascii "id=" ++
    deviceId.toList.flatMap fun v => [hexDigit (v.toNat / 16), hexDigit (v.toNat % 16)])

def buildTxtArc : List UInt8 :=
  txtPut (ascii "arcp_vers=2.8.9") ++ txtPut (ascii "arcp_min=0.2.4") ++
    txtPut (ascii "router_vers=4.4.0") ++ txtPut (ascii "router_info=N-Series AoIP") ++
    txtPut (ascii "mf=N-Series") ++ txtPut (ascii "model=_00000000000000ff")

def buildTxtCmc (b : Board) : List UInt8 :=
  txtPutHexid b.dev.deviceId ++ txtPut (ascii "process=0") ++ txtPut (ascii "cmcp_vers=1.2.0") ++
    txtPut (ascii "cmcp_min=1.0.0") ++ txtPut (ascii "server_vers=4.1.0") ++
    txtPut (ascii "channels=0x6000004d") ++ txtPut (ascii "mf=N-Series") ++
    txtPut (ascii "model=_00000000000000ff")

/-- `fpp=<max>,2`. -/
def fppText (v : Nat) : Str :=
  ascii "fpp=" ++ (if 10 ≤ v then [digit (v / 10)] else []) ++ [digit (v % 10)] ++ ascii ",2"

/-- `b.<flow>=<pos>`, with the flow id in at most two digits. -/
def bundleText (bid pos : Nat) : Str :=
  ascii "b." ++ (if 10 ≤ bid then [digit (bid / 10 % 10)] else []) ++ [digit (bid % 10)] ++
    ascii "=" ++ [digit pos]

def buildTxtChan (b : Board) (ch1 : Nat) : List UInt8 :=
  txtPut (ascii "txtvers=2") ++ txtPut (ascii "dbcp1=0x1200") ++ txtPutKvU (ascii "id=") ch1 ++
    txtPut (ascii "dbcp=0x1004") ++ txtPut (ascii "rate=48000") ++ txtPut (ascii "en=24") ++
    txtPut (ascii "pcm=3 4") ++ txtPut (ascii "enc=24") ++
    txtPutKvU (ascii "latency_ns=") b.latency ++ txtPut (fppText b.fppAdvMax) ++
    txtPutKvU (ascii "nchan=") 8 ++
    -- a key that starts with "b." sends a receiver down the multicast path
    (match danteTxChanBundle b.tx (ch1 % 2 ^ 16) with
      | some (bid, pos) => txtPut (bundleText bid.toNat pos)
      | none => []) ++
    txtPut (ascii "at2")

/-- One octet of an address, without leading zeros. -/
def octet (v : UInt8) : Str :=
  (if 100 ≤ v.toNat then [digit (v.toNat / 100)] else []) ++
    (if 10 ≤ v.toNat then [digit (v.toNat / 10 % 10)] else []) ++ [digit (v.toNat % 10)]

def addrText (ip : Ip) : Str :=
  ascii "a.0=" ++ octet ip.a ++ [dot] ++ octet ip.b ++ [dot] ++ octet ip.c ++ [dot] ++ octet ip.d

def buildTxtBund (b : Board) (b1 : Nat) : List UInt8 :=
  let (ip, ns) := (danteTxMcastById b.tx (BitVec.ofNat 16 b1)).getD (⟨0, 0, 0, 0⟩, 8)
  txtPut (ascii "txtvers=1") ++ txtPutKvU (ascii "id=") b1 ++ txtPutKvU (ascii "nchan=") ns ++
    txtPutKvU (ascii "latency_ns=") b.latency ++ txtPutKvU (ascii "fpp=") b.tx.mcastFpp ++
    txtPut (ascii "rate=48000") ++ txtPut (ascii "enc=24") ++ txtPut (ascii "at2") ++
    txtPut (addrText ip) ++ txtPut (ascii "p.0=4321")

/-! ## Record emission -/

/-- A record of the response: an enumerated service, the pointer, location or text of one, a
channel or bundle pointer, the location or text of a channel or bundle, the host's address. -/
inductive Entry
  | services (s : Svc)
  | svcPtr (s : Svc)
  | svcSrv (s : Svc)
  | svcTxt (s : Svc)
  | instPtr (i : Instance)
  | instSrv (i : Instance)
  | instTxt (i : Instance)
  | hostA
  deriving DecidableEq, Repr

def putRrHead (e : Enc) (name : Str) (type cls ttl : Nat) : Enc :=
  (namePut e name).put (Mem.be16 type ++ Mem.be16 cls ++ Mem.be32 ttl)

/-- The record data `f` writes, behind a length that is patched once they are there. -/
def putRdata (e : Enc) (f : Enc → Enc) : Enc :=
  let lp := e.buf.length
  let e := f (e.put [0, 0])
  e.patch16 lp (e.buf.length - (lp + 2))

def putA (b : Board) (e : Enc) : Enc :=
  (putRrHead e b.nHost dnsTA dnsCInFlush mdnsTtlA).put ([0, 4] ++ b.ip.bytes)

def putPtr (e : Enc) (svc inst : Str) : Enc :=
  putRdata (putRrHead e svc dnsTPtr dnsCIn mdnsTtl) fun e => namePut e inst

def putSrv (b : Board) (e : Enc) (inst : Str) (port : Nat) : Enc :=
  putRdata (putRrHead e inst dnsTSrv dnsCInFlush mdnsTtlA) fun e =>
    namePut (e.put ([0, 0, 0, 0] ++ Mem.be16 port)) b.nHost

def putTxt (e : Enc) (inst : Str) (text : List UInt8) : Enc :=
  putRdata (putRrHead e inst dnsTTxt dnsCInFlush mdnsTtlTxt) fun e => e.put text

def Instance.svc : Instance → Svc
  | .chan _ => .chan
  | .bund _ => .bund

def Instance.port : Instance → Nat
  | .chan _ => dantePortFlows
  | .bund _ => dantePortMedia.toNat

def Svc.port : Svc → Nat
  | .arc => dantePortArc
  | _ => dantePortCmc

/-- The bytes of a record. -/
def encode (b : Board) (e : Enc) : Entry → Enc
  | .services s => putPtr e nServices s.name
  | .svcPtr s => putPtr e s.name (b.svcInst s)
  | .svcSrv s => putSrv b e (b.svcInst s) s.port
  | .svcTxt s => putTxt e (b.svcInst s) (if s = .arc then buildTxtArc else buildTxtCmc b)
  | .instPtr i => putPtr e i.svc.name (b.inst i)
  | .instSrv i => putSrv b e (b.inst i) i.port
  | .instTxt (.chan ch1) => putTxt e (b.chanInst ch1) (buildTxtChan b ch1)
  | .instTxt (.bund id) => putTxt e (b.bundInst id) (buildTxtBund b id)
  | .hostA => putA b e

/-- The text of an instance and the address ride along as additional data. -/
def Entry.isAdditional : Entry → Bool
  | .instTxt _ => true
  | .hostA => true
  | _ => false

/-- A response under construction.  `log` is what has been put into it, in order. -/
structure Out where
  enc : Enc
  answers : Nat
  additional : Nat
  log : List Entry

/-- One record: its bytes, its section's count. -/
def emit (b : Board) (o : Out) (x : Entry) : Out :=
  { enc := encode b o.enc x
    answers := if x.isAdditional then o.answers else o.answers + 1
    additional := if x.isAdditional then o.additional + 1 else o.additional
    log := o.log ++ [x] }

def emitAll (b : Board) (o : Out) (xs : List Entry) : Out := xs.foldl (emit b) o

/-! ## The log -/

@[simp] theorem log_emit (b : Board) (o : Out) (x : Entry) : (emit b o x).log = o.log ++ [x] := rfl

@[simp] theorem enc_emit (b : Board) (o : Out) (x : Entry) :
    (emit b o x).enc = encode b o.enc x := rfl

@[simp] theorem log_emitAll (b : Board) (o : Out) (xs : List Entry) :
    (emitAll b o xs).log = o.log ++ xs := by
  induction xs generalizing o with
  | nil => exact (List.append_nil _).symm
  | cons x xs ih =>
      calc (emitAll b (emit b o x) xs).log
          = (o.log ++ [x]) ++ xs := ih (emit b o x)
        _ = o.log ++ x :: xs := List.append_assoc ..

end Mdns
end InfernoFpga
