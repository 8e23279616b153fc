import WolfCose.Codec.Skip
import WolfCose.Codec.Tree
import WolfCose.Codec.EncodeCalls
import WolfCose.Hdr.Crit
import WolfCose.Hdr.Skipped
import WolfCose.Struct
import WolfCose.Countersign.Structure
import WolfCose.Fault
import WolfCose.Sign1.Size
import WolfCose.Sign.RoundTrip
import WolfCose.Delegation
import WolfCose.Mac.Mac
import WolfCose.Encrypt.Encrypt0
import WolfCose.Encrypt.Decrypt
import WolfCose.Encrypt.Capacity
import WolfCose.Mac.CbcReference
import WolfCose.EatPsa.RoundTrip
import WolfCose.EatPsa.Duplicates
import WolfCose.EatPsa.Replay
import WolfCose.Sig.EccRaw
import WolfCose.Overlap
import WolfCose.Recipient.Walk
import WolfCose.Encrypt.Compared
import WolfCose.Encrypt.Opened
import WolfCose.Mac.Selected
import WolfCose.Recipient.Skipping
import WolfCose.Recipient.Policy
import WolfCose.EmptyBucket
import WolfCose.Countersign.Verify
import WolfCose.Substitution
import WolfCose.Encrypt.RoundTrip
import WolfCose.Key.Public
import WolfCose.Creation
import WolfCose.Key.PeekSpec
import WolfCose.Key.Readers
import WolfCose.Key.RoundTrip
import WolfCose.Key.Disarmed
import WolfCose.Tolerant
import WolfCose.EatPsa.Issue
import WolfCose.Countersign.Reverify
