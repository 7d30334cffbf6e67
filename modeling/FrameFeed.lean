import FrameFeed.Main
import FrameFeed.Proofs.AccessUnit.Alone
import FrameFeed.Proofs.AccessUnit.Appending
import FrameFeed.Proofs.Bits.Calls
import FrameFeed.Proofs.Bits.RoundTrip
import FrameFeed.Proofs.Catalog.Recognising
import FrameFeed.Proofs.Cursor.Failing
import FrameFeed.Proofs.Cursor.Skipping
import FrameFeed.Proofs.Emulation
import FrameFeed.Proofs.FeedBuffer.Feeding
import FrameFeed.Proofs.FeedBuffer.Ring
import FrameFeed.Proofs.FeedBuffer.Showing
import FrameFeed.Proofs.FeedBuffer.Writing
import FrameFeed.Proofs.Image.Images
import FrameFeed.Proofs.Image.Layout
import FrameFeed.Proofs.Image.Rows
import FrameFeed.Proofs.Image.Sizes
import FrameFeed.Proofs.Run.Dump
import FrameFeed.Proofs.Run.Growing
import FrameFeed.Proofs.Run.Working
import FrameFeed.Proofs.Session.Windows
import FrameFeed.Proofs.Splitter.Interrupted
import FrameFeed.Proofs.Sps.Cutting
import FrameFeed.Proofs.Sps.Finding
import FrameFeed.Proofs.Sps.PlanesApart
import FrameFeed.Proofs.Sps.Sizes
import FrameFeed.Proofs.Sps.Words
import FrameFeed.Proofs.StartCode.Agreement
