import Mathlib.Tactic.Common

/-! The frame layout of `net_types.h`. Every offset is the previous offset plus
the size of the previous attribute, as in the source; the packed bit-field
structs and their unions take one byte (`flags_offset` two). The frames of a TAP
device carry a prefix of `TAP_FRAME_OFFSET` bytes. -/

namespace RdmaFuzzing.FrameLayout

abbrev Byte : Type := BitVec 8

def tapFrameOffset : Nat := 4

-- Sizes of the attributes of `struct eth_hdr`, `ip_hdr`, `udp_hdr`, `ib_bth`.
def sizeDestMac : Nat := 6
def sizeSrcMac : Nat := 6
def sizeEthType : Nat := 2
def sizeVerIhl : Nat := 1
def sizeDscpEcn : Nat := 1
def sizeTotalLen : Nat := 2
def sizeIdentification : Nat := 2
def sizeFlagsOffset : Nat := 2
def sizeTtl : Nat := 1
def sizeProtocol : Nat := 1
def sizeHdrChecksum : Nat := 2
def sizeSrcIpAddr : Nat := 4
def sizeDestIpAddr : Nat := 4
def sizeSrcPort : Nat := 2
def sizeDestPort : Nat := 2
def sizeUdpLen : Nat := 2
def sizeUdpChecksum : Nat := 2
def sizeBthByte : Nat := 1

def destMacOffset : Nat := tapFrameOffset
def srcMacOffset : Nat := destMacOffset + sizeDestMac
def ethTypeOffset : Nat := srcMacOffset + sizeSrcMac

def ipHdrOffset : Nat := ethTypeOffset + sizeEthType
def verIhlOffset : Nat := ipHdrOffset
def dscpEcnOffset : Nat := verIhlOffset + sizeVerIhl
def totalLenOffset : Nat := dscpEcnOffset + sizeDscpEcn
def identificationOffset : Nat := totalLenOffset + sizeTotalLen
def flagsFragOffsetOffset : Nat := identificationOffset + sizeIdentification
def ttlOffset : Nat := flagsFragOffsetOffset + sizeFlagsOffset
def protocolOffset : Nat := ttlOffset + sizeTtl
def hdrChecksumOffset : Nat := protocolOffset + sizeProtocol
def srcIpAddrOffset : Nat := hdrChecksumOffset + sizeHdrChecksum
def destIpAddrOffset : Nat := srcIpAddrOffset + sizeSrcIpAddr

def udpHdrOffset : Nat := destIpAddrOffset + sizeDestIpAddr
def srcPortOffset : Nat := udpHdrOffset
def destPortOffset : Nat := srcPortOffset + sizeSrcPort
def udpLenOffset : Nat := destPortOffset + sizeDestPort
def udpChecksumOffset : Nat := udpLenOffset + sizeUdpLen

def ibBthOffset : Nat := udpChecksumOffset + sizeUdpChecksum
def ibOpcodeOffset : Nat := ibBthOffset
def ibSmptOffset : Nat := ibOpcodeOffset + sizeBthByte
def ibPkeyOffsetB1 : Nat := ibSmptOffset + sizeBthByte
def ibPkeyOffsetB2 : Nat := ibPkeyOffsetB1 + sizeBthByte
def ibFrBrReservedOffset : Nat := ibPkeyOffsetB2 + sizeBthByte
def ibDestQpB1Offset : Nat := ibFrBrReservedOffset + sizeBthByte
def ibDestQpB2Offset : Nat := ibDestQpB1Offset + sizeBthByte
def ibDestQpB3Offset : Nat := ibDestQpB2Offset + sizeBthByte
def ibArOffset : Nat := ibDestQpB3Offset + sizeBthByte
def ibPsnB1Offset : Nat := ibArOffset + sizeBthByte
def ibPsnB2Offset : Nat := ibPsnB1Offset + sizeBthByte
def ibPsnB3Offset : Nat := ibPsnB2Offset + sizeBthByte
def ibPseudPayloadOffset : Nat := ibPsnB3Offset + sizeBthByte

@[simp] theorem ethTypeOffset_eq : ethTypeOffset = 16 := rfl
@[simp] theorem verIhlOffset_eq : verIhlOffset = 18 := rfl
@[simp] theorem flagsFragOffsetOffset_eq : flagsFragOffsetOffset = 24 := rfl
@[simp] theorem protocolOffset_eq : protocolOffset = 27 := rfl
@[simp] theorem destPortOffset_eq : destPortOffset = 40 := rfl
@[simp] theorem udpLenOffset_eq : udpLenOffset = 42 := rfl
@[simp] theorem ibBthOffset_eq : ibBthOffset = 46 := rfl
@[simp] theorem ibPseudPayloadOffset_eq : ibPseudPayloadOffset = 58 := rfl

end RdmaFuzzing.FrameLayout
