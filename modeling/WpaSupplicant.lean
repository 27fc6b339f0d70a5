import WpaSupplicant.Availability
import WpaSupplicant.BssEnumeration
import WpaSupplicant.CallBudget
import WpaSupplicant.ErrorReplies
import WpaSupplicant.EventNames
import WpaSupplicant.HandlerRobustness
import WpaSupplicant.InputBufferBounds
import WpaSupplicant.InteractiveRequests
import WpaSupplicant.KeyValueResponses
import WpaSupplicant.LaunchPairing
import WpaSupplicant.Linearizability
import WpaSupplicant.MessageGrammar
import WpaSupplicant.NetworkCalls
import WpaSupplicant.NetworkRaces
import WpaSupplicant.OptionRoundTrip
import WpaSupplicant.Quiescence
import WpaSupplicant.ReceiveTruncation
import WpaSupplicant.RequestReplyPairing
import WpaSupplicant.Responsiveness
import WpaSupplicant.ScanEntries
import WpaSupplicant.ScanWaiting
import WpaSupplicant.SocketFiles
import WpaSupplicant.StreamReassembly
import WpaSupplicant.TrailingWhitespace
import WpaSupplicant.UnambiguousEncoding
import WpaSupplicant.WholeSystem
